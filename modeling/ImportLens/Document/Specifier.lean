/-!
# Package specifiers

Which specifiers of a document name a package whose size can be measured, and the
name of that package.
-/

namespace ImportLens.Document

def nodeBuiltinModules : List String :=
  ["assert", "assert/strict", "async_hooks", "buffer", "child_process", "cluster", "console",
    "constants", "crypto", "dgram", "diagnostics_channel", "dns", "dns/promises", "domain",
    "events", "fs", "fs/promises", "http", "http2", "https", "inspector", "inspector/promises",
    "module", "net", "os", "path", "path/posix", "path/win32", "perf_hooks", "process",
    "punycode", "querystring", "readline", "readline/promises", "repl", "stream",
    "stream/consumers", "stream/promises", "stream/web", "string_decoder", "timers",
    "timers/promises", "tls", "trace_events", "tty", "url", "util", "util/types", "v8", "vm",
    "wasi", "worker_threads", "zlib"]

def nodePrefixOnlyModules : List String :=
  ["node:sea", "node:sqlite", "node:test", "node:test/reporters"]

def startsWith (text start : String) : Bool := start.toList.isPrefixOf text.toList

def isNodeBuiltinSpecifier (specifier : String) : Bool :=
  let bare := ("node:".toList.isPrefixOf? specifier.toList).elim specifier String.ofList
  nodePrefixOnlyModules.contains specifier || nodeBuiltinModules.contains bare

def isWindowsAbsolutePath : List Char → Bool
  | drive :: colon :: separator :: _ =>
      drive.isAlpha && colon == ':' && (separator == '\\' || separator == '/')
  | _ => false

def isRelativeSpecifier (specifier : String) : Bool :=
  startsWith specifier "./" || startsWith specifier "../" || startsWith specifier "/" ||
    startsWith specifier "\\\\" || startsWith specifier ".\\" || startsWith specifier "..\\" ||
    isWindowsAbsolutePath specifier.toList

def isUrlLikeSpecifier (specifier : String) : Bool :=
  specifier.toList.contains ':' &&
    match specifier.toList.takeWhile (· ≠ ':') with
    | [] => false
    | first :: rest =>
        first.isAlpha && rest.all fun c => c.isAlphanum || c == '+' || c == '.' || c == '-'

def isFrameworkVirtualSpecifier (specifier : String) : Bool :=
  startsWith specifier "astro:" || startsWith specifier "virtual:" ||
    startsWith specifier "$" || startsWith specifier "#" || startsWith specifier "@/" ||
    startsWith specifier "~/"

def isHostProvidedModule (specifier : String) : Bool :=
  specifier == "vscode" || specifier == "electron" || startsWith specifier "bun:"

def isRuntimePackageSpecifier (specifier : String) : Bool :=
  !isRelativeSpecifier specifier && !isNodeBuiltinSpecifier specifier &&
    !isUrlLikeSpecifier specifier && !isFrameworkVirtualSpecifier specifier &&
    !isHostProvidedModule specifier

def getPackageName (specifier : String) : String :=
  let first := specifier.toList.takeWhile (· ≠ '/')
  match specifier.toList.drop first.length with
  | [] => specifier
  | slash :: rest =>
      if startsWith specifier "@" then String.ofList (first ++ slash :: rest.takeWhile (· ≠ '/'))
      else String.ofList first

end ImportLens.Document

import ImportLens.Support.BreadthFirst
import ImportLens.Support.PosixPath

/-!
# The configs whose alias tables a workspace can reach

The walk over the `references` of a config, as `reachable_alias_configs` makes it over one state
of the file system.  The parser of a config and the normalization of a reference are
`oxc_resolver`'s.
-/

namespace ImportLens.Pipeline.AliasConfigs

open ImportLens.Support
open ImportLens.Support.PosixPath (Component)
open ImportLens.Support.BreadthFirst (Reaches Walked absorb order InOrder)

/-! ## Paths -/

/-- What a path's text ends with after its last component. -/
inductive Tail
  | bare
  | separator
  | dot
  deriving DecidableEq, Repr

/-- The text of a path but for separators that mean nothing.  Two paths are equal as
`PathBuf`s if their components are. -/
structure PathBuf where
  components : List Component
  tail : Tail
  deriving DecidableEq, Repr

namespace PathBuf

def parent (path : PathBuf) : Option PathBuf :=
  match path.components.getLast? with
  | none => none
  | some .rootDir => none
  | some .curDir => some ⟨path.components.dropLast, .bare⟩
  | some .parentDir => some ⟨path.components.dropLast, .bare⟩
  | some (.normal _) => some ⟨path.components.dropLast, .bare⟩

def join (path : PathBuf) (name : String) : PathBuf :=
  ⟨path.components ++ [.normal name], .bare⟩

end PathBuf

/-- `append_extension`: a dot and the extension after the text of the path, which go to its
last component if the text ends with one. -/
def appendExtension (candidate : PathBuf) (extension : String) : PathBuf :=
  let ending := "." ++ extension
  let renamed (name : String) : PathBuf :=
    ⟨candidate.components.dropLast ++ [.normal (name ++ ending)], .bare⟩
  match candidate.tail with
  | .separator => candidate.join ending
  | .dot => candidate.join ("." ++ ending)
  | .bare =>
      match candidate.components.getLast? with
      | none => candidate.join ending
      | some .rootDir => candidate.join ending
      | some .curDir => renamed "."
      | some .parentDir => renamed ".."
      | some (.normal name) => renamed name

/-! ## The references of one config -/

/-- The file system during the walk.  A text is absent if the file cannot be read as one. -/
structure FileSystem where
  isFile : List Component → Bool
  isDir : List Component → Bool
  text : List Component → Option String

/-- What `oxc_resolver` does: the paths of the `references` of a parsed config, and the path
that a reference spells seen from a directory. -/
structure OxcResolver where
  parse : PathBuf → String → Option (List PathBuf)
  normalizeWith : PathBuf → PathBuf → PathBuf

section

variable (fs : FileSystem)

def PathBuf.isFile (path : PathBuf) : Bool :=
  decide (path.tail = .bare) && fs.isFile path.components

def PathBuf.isDir (path : PathBuf) : Bool := fs.isDir path.components

def readToString (path : PathBuf) : Option String :=
  if path.tail = .bare then fs.text path.components else none

variable (oxc : OxcResolver)

/-- `referenced_config_file`: a file, the `tsconfig.json` of a directory, or the file with
`.json` after its name. -/
def referencedConfigFile (directory reference : PathBuf) : Option PathBuf :=
  let candidate := oxc.normalizeWith directory reference
  if candidate.isFile fs then some candidate
  else if candidate.isDir fs then
    let implied := candidate.join "tsconfig.json"
    if implied.isFile fs then some implied else none
  else
    let withExtension := appendExtension candidate "json"
    if withExtension.isFile fs then some withExtension else none

/-- `referenced_alias_configs`: a config that cannot be read or parsed yields nothing. -/
def referencedAliasConfigs (configFile : PathBuf) : List PathBuf :=
  match configFile.parent with
  | none => []
  | some directory =>
      match readToString fs configFile with
      | none => []
      | some source =>
          match oxc.parse configFile source with
          | none => []
          | some references => references.filterMap (referencedConfigFile fs oxc directory)

/-! ## The walk -/

def maxReachableAliasConfigs : Nat := 24

/-- `contains` compares as `PathBuf`s do. -/
def contains (discovered : List PathBuf) (referenced : PathBuf) : Bool :=
  discovered.any fun path => decide (path.components = referenced.components)

def discover (discovered : List PathBuf) : List PathBuf → List PathBuf
  | [] => discovered
  | referenced :: rest =>
      if contains discovered referenced then discover discovered rest
      else
        let pushed := discovered ++ [referenced]
        if maxReachableAliasConfigs ≤ pushed.length then pushed else discover pushed rest

def walk : Nat → List PathBuf → Nat → Option (List PathBuf)
  | 0, _, _ => none
  | fuel + 1, discovered, next =>
      if h : next < discovered.length ∧ discovered.length < maxReachableAliasConfigs then
        let current := discovered.get ⟨next, h.1⟩
        walk fuel (discover discovered (referencedAliasConfigs fs oxc current)) (next + 1)
      else some discovered

def reachableAliasConfigs (fuel : Nat) (configFile : PathBuf) : Option (List PathBuf) :=
  walk fs oxc fuel [configFile] 0

end

/-! ## Paths of files -/

section

variable {fs : FileSystem} {oxc : OxcResolver} {start config referenced : PathBuf}
  {directory reference : PathBuf} {discovered found : List PathBuf} {next fuel : Nat}

theorem isFile_tail {path : PathBuf} (h : path.isFile fs = true) : path.tail = .bare := by
  rw [PathBuf.isFile, Bool.and_eq_true, decide_eq_true_eq] at h
  exact h.1

theorem referencedConfigFile_isFile
    (h : referencedConfigFile fs oxc directory reference = some config) :
    config.isFile fs = true := by
  unfold referencedConfigFile at h
  simp only at h
  split at h
  · rename_i hfile
    cases h
    exact hfile
  · split at h
    · split at h
      · rename_i hfile
        cases h
        exact hfile
      · cases h
    · split at h
      · rename_i hfile
        cases h
        exact hfile
      · cases h

theorem referencedAliasConfigs_isFile (h : referenced ∈ referencedAliasConfigs fs oxc config) :
    referenced.isFile fs = true := by
  rw [referencedAliasConfigs] at h
  split at h
  · cases h
  · split at h
    · cases h
    · split at h
      · cases h
      · obtain ⟨reference, -, hreference⟩ := List.mem_filterMap.mp h
        exact referencedConfigFile_isFile hreference

theorem referencedAliasConfigs_of_tail (h : config.tail ≠ .bare) :
    referencedAliasConfigs fs oxc config = [] := by
  rw [referencedAliasConfigs]
  split
  · rfl
  · rw [readToString, if_neg h]

theorem eq_of_components {x y : PathBuf} (hx : Reaches (referencedAliasConfigs fs oxc) start x)
    (hy : Reaches (referencedAliasConfigs fs oxc) start y) (h : x.components = y.components) :
    x = y := by
  have hplain : ∀ p, Reaches (referencedAliasConfigs fs oxc) start p → p ≠ start →
      p.tail = .bare ∧ start.tail = .bare := by
    intro p hp hne
    constructor
    · cases hp with
      | refl => exact absurd rfl hne
      | tail _ hedge => exact isFile_tail (referencedAliasConfigs_isFile hedge)
    · rcases Relation.ReflTransGen.cases_head hp with heq | ⟨q, hedge, -⟩
      · exact absurd heq.symm hne
      · by_contra htail
        rw [referencedAliasConfigs_of_tail htail] at hedge
        cases hedge
  have htail : x.tail = y.tail := by
    by_cases hxs : x = start
    · by_cases hys : y = start
      · rw [hxs, hys]
      · rw [hxs, (hplain y hy hys).1, (hplain y hy hys).2]
    · obtain ⟨hxtail, hstart⟩ := hplain x hx hxs
      by_cases hys : y = start
      · rw [hys, hxtail, hstart]
      · rw [hxtail, (hplain y hy hys).1]
  cases x
  cases y
  cases h
  cases htail
  rfl

/-! ## The loops -/

theorem contains_iff_mem (hsame : ∀ x ∈ discovered, x.components = referenced.components →
    x = referenced) : contains discovered referenced = true ↔ referenced ∈ discovered := by
  rw [contains, List.any_eq_true]
  constructor
  · rintro ⟨x, hx, heq⟩
    rw [← hsame x hx (of_decide_eq_true heq)]
    exact hx
  · exact fun h => ⟨referenced, h, decide_eq_true rfl⟩

/-- The inner loop pushes what is new, up to the limit. -/
theorem discover_eq {references : List PathBuf}
    (hsame : ∀ x ∈ discovered ++ references, ∀ y ∈ references,
      x.components = y.components → x = y)
    (hroom : discovered.length < maxReachableAliasConfigs) :
    discover discovered references =
      (absorb discovered references).take maxReachableAliasConfigs := by
  induction references generalizing discovered with
  | nil => exact (List.take_of_length_le (Nat.le_of_lt hroom)).symm
  | cons referenced rest ih =>
    have hcontains : contains discovered referenced = true ↔ referenced ∈ discovered :=
      contains_iff_mem fun x hx => hsame x (List.mem_append_left _ hx) referenced List.mem_cons_self
    rw [discover, absorb]
    by_cases hold : referenced ∈ discovered
    · rw [if_pos (hcontains.mpr hold), if_pos hold]
      apply ih _ hroom
      intro x hx y hy
      apply hsame x _ y (List.mem_cons_of_mem _ hy)
      rcases List.mem_append.mp hx with hx | hx
      · exact List.mem_append_left _ hx
      · exact List.mem_append_right _ (List.mem_cons_of_mem _ hx)
    · rw [if_neg (mt hcontains.mp hold), if_neg hold]
      have hlength : (discovered ++ [referenced]).length = discovered.length + 1 := by simp
      by_cases hfull : maxReachableAliasConfigs ≤ (discovered ++ [referenced]).length
      · -- the push that reaches the limit ends the loop
        have hlimit : maxReachableAliasConfigs = (discovered ++ [referenced]).length := by omega
        have hkept : discovered ++ [referenced] <+: absorb (discovered ++ [referenced]) rest :=
          BreadthFirst.prefix_absorb
        obtain ⟨new, hnew⟩ := hkept
        simp only [if_pos hfull]
        rw [← hnew, hlimit, List.take_left]
      · simp only [if_neg hfull]
        apply ih _ (by omega)
        intro x hx y hy
        apply hsame x _ y (List.mem_cons_of_mem _ hy)
        simpa using hx

/-- The rounds that are left are enough: the walk ends, with what a walk over the graph ends. -/
theorem walk_eq (h : Walked (referencedAliasConfigs fs oxc) start maxReachableAliasConfigs
      discovered next)
    (hreach : ∀ x ∈ discovered, Reaches (referencedAliasConfigs fs oxc) start x)
    (hfuel : maxReachableAliasConfigs ≤ next + fuel) (hround : 0 < fuel) :
    ∃ found cursor, walk fs oxc fuel discovered next = some found ∧
      Walked (referencedAliasConfigs fs oxc) start maxReachableAliasConfigs found cursor ∧
      (cursor = found.length ∨ maxReachableAliasConfigs ≤ found.length) := by
  induction fuel generalizing discovered next with
  | zero => omega
  | succ fuel ih =>
    rw [walk]
    by_cases hgo : next < discovered.length ∧ discovered.length < maxReachableAliasConfigs
    · rw [dif_pos hgo]
      obtain ⟨hnext, hroom⟩ := hgo
      have hcurrent := hreach _ (List.getElem_mem hnext)
      have hall : ∀ x ∈ discovered ++ referencedAliasConfigs fs oxc discovered[next],
          Reaches (referencedAliasConfigs fs oxc) start x := by
        intro x hx
        rcases List.mem_append.mp hx with hx | hx
        · exact hreach x hx
        · exact hcurrent.tail hx
      have hloop := discover_eq (fun x hx y hy heq =>
        eq_of_components (hall x hx) (hall y (List.mem_append_right _ hy)) heq) hroom
      have hstep := h.step hnext hroom
      rw [← hloop] at hstep
      apply ih hstep
      · intro x hx
        rw [hloop] at hx
        exact hall x (List.mem_append.mpr (BreadthFirst.mem_absorb.mp (List.mem_of_mem_take hx)))
      · omega
      · omega
    · rw [dif_neg hgo]
      have hle := h.cursor_le
      exact ⟨discovered, next, rfl, h, by omega⟩

end

theorem reachableAliasConfigs_eq (fs : FileSystem) (oxc : OxcResolver) (start : PathBuf)
    {fuel n : Nat} (hfuel : 24 ≤ fuel) (hn : 24 ≤ n) :
    reachableAliasConfigs fs oxc fuel start =
      some ((order (referencedAliasConfigs fs oxc) start n).take 24) := by
  have hinit : Walked (referencedAliasConfigs fs oxc) start maxReachableAliasConfigs [start] 0 :=
    .init (by decide)
  have hstart : ∀ x ∈ [start], Reaches (referencedAliasConfigs fs oxc) start x := by
    intro x hx
    rw [List.mem_singleton.mp hx]
    exact .refl
  have hrounds : maxReachableAliasConfigs ≤ 0 + fuel := by
    rw [Nat.zero_add]
    exact hfuel
  obtain ⟨found, cursor, hwalk, hwalked, hdone⟩ := walk_eq hinit hstart hrounds (by omega)
  have hcursor : cursor ≤ n := by
    have hle := hwalked.cursor_le
    have hlength : found.length ≤ 24 := hwalked.length_le
    omega
  rw [reachableAliasConfigs, hwalk, hwalked.outcome hdone hcursor]
  rfl

/-- The walk returns after 24 rounds at most.  What it returns begins with `start`, has no two
equal paths, and is reached from `start` through references; it is all that is reached if that
is 24 configs or fewer, and 24 of them otherwise; it is in breadth-first order, and the
beginning of the one in which references are met. -/
theorem reachable_alias_configs_is_bounded_reachability (fs : FileSystem) (oxc : OxcResolver)
    (start : PathBuf) :
    ∃ found, (∀ fuel, 24 ≤ fuel → reachableAliasConfigs fs oxc fuel start = some found) ∧
      found.head? = some start ∧
      (found.map PathBuf.components).Nodup ∧
      (∀ config ∈ found, Reaches (referencedAliasConfigs fs oxc) start config) ∧
      ({config | Reaches (referencedAliasConfigs fs oxc) start config}.encard ≤ 24 →
        ∀ config, Reaches (referencedAliasConfigs fs oxc) start config → config ∈ found) ∧
      (24 < {config | Reaches (referencedAliasConfigs fs oxc) start config}.encard →
        found.length = 24) ∧
      InOrder (referencedAliasConfigs fs oxc) start found ∧
      ∀ n, 24 ≤ n → found = (order (referencedAliasConfigs fs oxc) start n).take 24 := by
  have hout : ∀ n, 24 ≤ n → (order (referencedAliasConfigs fs oxc) start 24).take 24 =
      (order (referencedAliasConfigs fs oxc) start n).take 24 := by
    intro n hn
    apply Option.some.inj
    rw [← reachableAliasConfigs_eq fs oxc start (Nat.le_refl 24) (Nat.le_refl 24)]
    exact reachableAliasConfigs_eq fs oxc start (Nat.le_refl 24) hn
  refine ⟨_, fun fuel hfuel => reachableAliasConfigs_eq fs oxc start hfuel (Nat.le_refl 24), ?_,
    ?_, ?_, ?_, ?_, ?_, hout⟩
  · exact BreadthFirst.head_take_order (by decide)
  · have hnodup := BreadthFirst.nodup_of_outcome hout
    apply List.Nodup.map_on _ hnodup
    intro x hx y hy heq
    exact eq_of_components (BreadthFirst.reaches_of_mem hout hx)
      (BreadthFirst.reaches_of_mem hout hy) heq
  · exact fun config => BreadthFirst.reaches_of_mem hout
  · exact fun hle config => BreadthFirst.mem_of_encard_le hout hle
  · exact fun hlt => BreadthFirst.length_of_lt_encard hout hlt
  · exact BreadthFirst.inOrder_take 24 24

end ImportLens.Pipeline.AliasConfigs

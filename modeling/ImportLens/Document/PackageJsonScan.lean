import ImportLens.Document.PackageJson
import ImportLens.Support.JsonBytes

/-!
# The scanner on a JSON text

On a text of the grammar the scanner goes from token to token.  What is balanced leaves
its depth where it was, so that only the keys and the string values of one object are
looked at, in their order.
-/

namespace ImportLens.Document.PackageJson

open ImportLens.Support ImportLens.Support.Json Relation

/-! ## Reading a string -/

theorem leads_string {bytes pre inside post : List UInt8} (h : Escaped inside)
    (hbytes : bytes = pre ++ inside ++ post) :
    ReflTransGen (Follows (stringRound bytes)) pre.length (pre ++ inside).length := by
  induction h generalizing pre with
  | nil =>
    simp only [List.append_nil]
    exact .refl
  | @plain byte rest hbyte hrest ih =>
    have hat : bytes[pre.length]? = some byte := by
      rw [hbytes, List.append_assoc, List.getElem?_append_right (Nat.le_refl _), Nat.sub_self]
      rfl
    have hround : stringRound bytes pre.length = some (pre ++ [byte]).length := by
      rw [stringRound, hat, Option.bind_some, if_neg hbyte.1, if_neg hbyte.2, List.length_append]
      rfl
    have hlater := @ih (pre ++ [byte]) (by simpa using hbytes)
    rw [List.append_assoc] at hlater
    exact .head hround hlater
  | @escape byte rest hrest ih =>
    have hat : bytes[pre.length]? = some (byteOf '\\') := by
      rw [hbytes, List.append_assoc, List.getElem?_append_right (Nat.le_refl _), Nat.sub_self]
      rfl
    have hround : stringRound bytes pre.length =
        some (pre ++ [byteOf '\\', byte]).length := by
      rw [stringRound, hat, Option.bind_some, if_pos rfl, List.length_append]
      rfl
    have hlater := @ih (pre ++ [byteOf '\\', byte]) (by simpa using hbytes)
    rw [List.append_assoc] at hlater
    exact .head hround hlater

theorem stringRound_spec {bytes : List UInt8} {current next : Nat}
    (h : stringRound bytes current = some next) : current < next ∧ current < bytes.length := by
  obtain ⟨byte, hat, hnext⟩ := Option.bind_eq_some_iff.mp h
  have hlt := (List.getElem?_eq_some_iff.mp hat).1
  split at hnext
  · cases hnext
    omega
  · split at hnext
    · cases hnext
    · cases hnext
      omega

theorem rounds_stringRound (bytes : List UInt8) (start : Nat) :
    ∃ finish, rounds (stringRound bytes) (bytes.length + 1) start = some finish :=
  rounds_return_upTo id bytes.length (fun _ _ h => stringRound_spec h) start

variable {serde : SerdeJson} {text : List Char}

theorem readJsonString_lt {start : Nat} {token : JsonStringToken}
    (h : readJsonString serde text start = some token) : start < token.finish := by
  unfold readJsonString at h
  split at h
  · obtain ⟨current, hrun, hread⟩ := Option.bind_eq_some_iff.mp h
    have hle := (rounds_invariant (I := fun current => start + 1 ≤ current)
      (fun s next hnext hs => hs.trans (stringRound_spec hnext).1.le) hrun (Nat.le_refl _)).1
    split at hread
    · obtain ⟨value, -, rfl⟩ := Option.map_eq_some_iff.mp hread
      dsimp only at hle ⊢
      omega
    · cases hread
  · cases h

theorem readJsonString_token {before rest : List Token} {s : StringToken}
    (htext : text = render (before ++ .string s :: rest))
    (hs : serde.fromStrString s.text = some s.decode) :
    readJsonString serde text (width before) =
      some ⟨s.decode, width before, width (before ++ [.string s])⟩ := by
  have hopen : (utf8 text)[width before]? = some (byteOf '"') := by
    rw [htext]
    exact byteAt before (.string s) rest
  have hbytes : utf8 text = (utf8 (render before) ++ [byteOf '"']) ++ utf8 s.inside ++
      byteOf '"' :: utf8 (render rest) := by
    rw [htext, render_append, render_cons, utf8_append, utf8_append, Token.text, utf8_string]
    simp
  have hstart : (utf8 (render before) ++ [byteOf '"']).length = width before + 1 := by
    rw [List.length_append]
    rfl
  have hend : (utf8 (render before) ++ [byteOf '"'] ++ utf8 s.inside).length + 1 =
      width (before ++ [.string s]) := by
    rw [List.length_append, hstart, width_append, width_string]
    omega
  have hclose : (utf8 text)[(utf8 (render before) ++ [byteOf '"'] ++ utf8 s.inside).length]? =
      some (byteOf '"') := by
    rw [hbytes, List.getElem?_append_right (Nat.le_refl _), Nat.sub_self]
    rfl
  have hleads := leads_string (escaped_inside s) hbytes
  rw [hstart] at hleads
  have hdone : stringRound (utf8 text)
      (utf8 (render before) ++ [byteOf '"'] ++ utf8 s.inside).length = none := by
    rw [stringRound, hclose, Option.bind_some, if_neg (by decide), if_pos rfl]
  have hrun := rounds_eq_of_leads hleads hdone (rounds_stringRound _ _)
  have hslice : sliceText text (width before) (width (before ++ [.string s])) = some s.text := by
    have hparts := sliceText_append (render before) s.text (render rest)
    have hall : text = render before ++ s.text ++ render rest := by
      rw [htext, render_append, render_cons, List.append_assoc]
      rfl
    have hwidth : width (before ++ [.string s]) = (utf8 (render before ++ s.text)).length := by
      rw [width, render_append, render_cons, render_nil, List.append_nil]
      rfl
    rw [hall, hwidth]
    exact hparts
  rw [readJsonString, if_pos hopen, hrun, Option.bind_some, if_pos hclose, hend, hslice,
    Option.bind_some, hs, Option.map_some]

/-! ## Skipping spaces -/

theorem isJsonWhitespace_space (s : Space) : isJsonWhitespace (byteOf s.char) = true := by
  cases s <;> decide

theorem utf8_spaces (ss : List Space) :
    utf8 (render (spaces ss)) = ss.map fun s => byteOf s.char := by
  induction ss with
  | nil => rfl
  | cons s ss ih =>
    have hlt : s.char.toNat < 128 := (Token.space s).first_lt
    have hfirst : utf8 (render (spaces (s :: ss))) =
        String.utf8EncodeChar s.char ++ utf8 (render (spaces ss)) := rfl
    rw [hfirst, utf8EncodeChar_of_lt hlt, ih]
    rfl

theorem skipWhitespace_spaces {before rest : List Token} {ss : List Space} {t : Token}
    (htext : text = render (before ++ spaces ss ++ t :: rest))
    (ht : isJsonWhitespace (byteOf t.first) = false) :
    skipWhitespace (utf8 text) (width before) = width (before ++ spaces ss) := by
  obtain ⟨tail, hfirst⟩ := t.exists_text
  have hbytes : utf8 text = utf8 (render before) ++
      (utf8 (render (spaces ss)) ++ byteOf t.first :: utf8 (tail ++ render rest)) := by
    rw [htext, render_append, render_append, render_cons, hfirst, utf8_append, utf8_append,
      List.cons_append, utf8_cons, utf8EncodeChar_of_lt t.first_lt, List.append_assoc]
    rfl
  have hspaces : ∀ byte ∈ utf8 (render (spaces ss)), isJsonWhitespace byte = true := by
    intro byte hbyte
    rw [utf8_spaces] at hbyte
    obtain ⟨s, -, rfl⟩ := List.mem_map.mp hbyte
    exact isJsonWhitespace_space s
  rw [skipWhitespace, hbytes, width, List.drop_left, List.takeWhile_append_of_pos hspaces,
    List.takeWhile_cons, ht, if_neg Bool.false_ne_true, List.append_nil, width_append]
  rfl

/-! ## Depths -/

/-- How `matching_object_end` counts. -/
def braces : Token → Int
  | .mark .openBrace => 1
  | .mark .closeBrace => -1
  | _ => 0

def brackets : Token → Int
  | .mark .openBrace | .mark .openBracket => 1
  | .mark .closeBrace | .mark .closeBracket => -1
  | _ => 0

theorem counts_braces : Counts braces :=
  ⟨fun _ => rfl, fun _ => rfl, fun _ => rfl, rfl, rfl, ⟨rfl, rfl⟩, .inr ⟨rfl, rfl⟩⟩

theorem counts_brackets : Counts brackets :=
  ⟨fun _ => rfl, fun _ => rfl, fun _ => rfl, rfl, rfl, ⟨rfl, rfl⟩, .inl ⟨rfl, rfl⟩⟩

theorem isAtom_ne (c : Atom) {d : Char} (hd : isAtom d = false) (hlt : d.toNat < 128) :
    byteOf c.val ≠ byteOf d := by
  intro heq
  have hc := toNat_lt_of_isAtom c.property
  have hnat : c.val.toNat = d.toNat := by
    have hbytes := congrArg UInt8.toNat heq
    rw [byteOf, byteOf, UInt8.toNat_ofNat', UInt8.toNat_ofNat'] at hbytes
    omega
  have hsame : c.val = d := Char.ext (UInt32.toNat_inj.mp hnat)
  have hatom := c.property
  rw [hsame, hd] at hatom
  cases hatom

/-! ## The end of an object -/

theorem objectRound_lt {scan next : ObjectScan} (h : objectRound serde text scan = some next) :
    scan.current < next.current ∧ scan.current < (utf8 text).length := by
  obtain ⟨byte, hat, hnext⟩ := Option.bind_eq_some_iff.mp h
  have hlt := (List.getElem?_eq_some_iff.mp hat).1
  split at hnext
  · obtain ⟨token, htoken, rfl⟩ := Option.map_eq_some_iff.mp hnext
    exact ⟨readJsonString_lt htoken, hlt⟩
  split at hnext
  · cases hnext
    exact ⟨Nat.lt_succ_self _, hlt⟩
  split at hnext
  · split at hnext
    · cases hnext
    · cases hnext
      exact ⟨Nat.lt_succ_self _, hlt⟩
  · cases hnext
    exact ⟨Nat.lt_succ_self _, hlt⟩

theorem rounds_objectRound (serde : SerdeJson) (text : List Char) (scan : ObjectScan) :
    ∃ last, rounds (objectRound serde text) ((utf8 text).length + 1) scan = some last :=
  rounds_return_upTo ObjectScan.current (utf8 text).length (fun _ _ h => objectRound_lt h) scan

section

variable {tokens : List Token} (hstrings : ∀ s, .string s ∈ tokens →
  serde.fromStrString s.text = some s.decode)

include hstrings

theorem objectRound_token {before rest : List Token} {t : Token} (depth : Int)
    (htokens : tokens = before ++ t :: rest) (hdepth : t = .mark .closeBrace → depth ≠ 1) :
    Follows (objectRound serde (render tokens)) ⟨width before, depth⟩
      ⟨width (before ++ [t]), depth + braces t⟩ := by
  have hat : (utf8 (render tokens))[width before]? = some (byteOf t.first) := by
    rw [htokens]
    exact byteAt before t rest
  rw [Follows, objectRound, hat, Option.bind_some]
  cases t with
  | string s =>
    have hread := readJsonString_token (congrArg render htokens)
      (hstrings s (by rw [htokens]; simp))
    have hzero : braces (.string s) = 0 := rfl
    rw [if_pos (by rfl), hread, Option.map_some, hzero, Int.add_zero]
  | space s =>
    rw [width_append, width_space]
    cases s <;> simp [Token.first, Space.char, braces, byteOf]
  | mark m =>
    rw [width_append, width_mark]
    cases m with
    | closeBrace =>
      have hne : ¬ depth + -1 = 0 := by
        have hone := hdepth rfl
        omega
      simp [Token.first, Mark.char, braces, byteOf, hne, Int.sub_eq_add_neg]
    | _ => simp [Token.first, Mark.char, braces, byteOf]
  | atom c =>
    have hzero : braces (.atom c) = 0 := rfl
    rw [width_append, width_atom, Token.first, if_neg (isAtom_ne c (by decide) (by decide)),
      if_neg (isAtom_ne c (by decide) (by decide)), if_neg (isAtom_ne c (by decide) (by decide)),
      hzero, Int.add_zero]

/-- Inside an object the scan passes over what is balanced. -/
theorem leads_object {ts : List Token} (h : Balanced braces ts) {before rest : List Token}
    {depth : Int} (htokens : tokens = before ++ ts ++ rest) (hdepth : 1 ≤ depth) :
    ReflTransGen (Follows (objectRound serde (render tokens))) ⟨width before, depth⟩
      ⟨width (before ++ ts), depth⟩ := by
  induction h generalizing before rest depth with
  | nil =>
    simp only [List.append_nil]
    exact .refl
  | @neutral t ht =>
    have htokens' : tokens = before ++ t :: rest := by simpa using htokens
    have hround :=
      objectRound_token hstrings depth htokens' (fun heq => by rw [heq] at ht; cases ht)
    rw [ht, Int.add_zero] at hround
    exact .single hround
  | @append xs ys _ _ ihx ihy =>
    have hfirst := @ihx before (ys ++ rest) depth (by simpa using htokens) hdepth
    have hsecond := @ihy (before ++ xs) rest depth (by simpa using htokens) hdepth
    rw [List.append_assoc] at hsecond
    exact hfirst.trans hsecond
  | @enclose a b xs ha _ hb ih =>
    have hstart : tokens = before ++ a :: (xs ++ b :: rest) := by simpa using htokens
    have hfinish : tokens = before ++ [a] ++ xs ++ b :: rest := by simpa using htokens
    have hopen := objectRound_token hstrings depth hstart (fun heq => by rw [heq] at ha; cases ha)
    have hinside := @ih (before ++ [a]) ([b] ++ rest) (depth + 1) (by simpa using htokens)
      (by omega)
    have hclose := objectRound_token hstrings (depth + 1) hfinish (fun _ => by omega)
    rw [ha] at hopen
    rw [hb, Int.add_neg_cancel_right] at hclose
    have hend : before ++ [a] ++ xs ++ [b] = before ++ a :: (xs ++ [b]) := by simp
    rw [hend] at hclose
    exact (ReflTransGen.head hopen hinside).tail hclose

theorem matchingObjectEnd_object {before inside rest : List Token}
    (htokens : tokens =
      before ++ (.mark .openBrace :: (inside ++ [.mark .closeBrace])) ++ rest)
    (hinside : Balanced braces inside) :
    matchingObjectEnd serde (render tokens) (width before) =
      some (width (before ++ (.mark .openBrace :: (inside ++ [.mark .closeBrace])))) := by
  have hstart : tokens = before ++ .mark .openBrace :: (inside ++ .mark .closeBrace :: rest) := by
    simpa using htokens
  have hmiddle : tokens = before ++ [.mark .openBrace] ++ inside ++ .mark .closeBrace :: rest := by
    simpa using htokens
  have hopen := objectRound_token hstrings 0 hstart (fun h => by cases h)
  have hleads := leads_object hstrings hinside hmiddle (Int.le_refl 1)
  have hclose : (utf8 (render tokens))[width (before ++ [.mark .openBrace] ++ inside)]? =
      some (byteOf '\x7d') := by
    rw [hmiddle]
    exact byteAt _ (.mark .closeBrace) rest
  have hdone : objectRound serde (render tokens)
      ⟨width (before ++ [.mark .openBrace] ++ inside), 1⟩ = none := by
    rw [objectRound]
    dsimp only
    rw [hclose, Option.bind_some, if_neg (by decide), if_neg (by decide), if_pos rfl,
      if_pos (by decide)]
  have hrun := rounds_eq_of_leads (ReflTransGen.head hopen hleads) hdone
    (rounds_objectRound serde (render tokens) _)
  have hwidth : width (before ++ [.mark .openBrace] ++ inside) + 1 =
      width (before ++ (.mark .openBrace :: (inside ++ [.mark .closeBrace]))) := by
    have hend : before ++ (.mark .openBrace :: (inside ++ [.mark .closeBrace])) =
        before ++ [.mark .openBrace] ++ inside ++ [.mark .closeBrace] := by simp
    rw [hend, width_append _ [.mark .closeBrace], width_mark]
  rw [matchingObjectEnd, hrun, Option.bind_some, if_pos hclose, hwidth]

end

end ImportLens.Document.PackageJson

import ImportLens.Document.PackageJsonScan

/-!
# A walk through an object

Both walks of the scanner look at the strings one level inside the text they start at, and
make something of one only where a colon follows.  So in an object they look at its keys,
each in turn, whatever the values hold.
-/

namespace ImportLens.Document.PackageJson

open ImportLens.Support ImportLens.Support.Json Relation

attribute [local irreducible] width

variable {serde : SerdeJson} {text : List Char} {β : Type} {limit : Nat}
variable {visit : Int → JsonStringToken → Option β}

theorem walkRound_lt {walk next : Walk β} (h : walkRound serde text limit visit walk = some next) :
    walk.current < next.current ∧ walk.current < limit := by
  unfold walkRound at h
  split at h
  · rename_i hlimit
    obtain ⟨byte, -, hnext⟩ := Option.bind_eq_some_iff.mp h
    split at hnext
    · obtain ⟨token, htoken, rfl⟩ := Option.map_eq_some_iff.mp hnext
      exact ⟨readJsonString_lt htoken, hlimit⟩
    split at hnext
    · cases hnext
      exact ⟨Nat.lt_succ_self _, hlimit⟩
    split at hnext
    · cases hnext
      exact ⟨Nat.lt_succ_self _, hlimit⟩
    · cases hnext
      exact ⟨Nat.lt_succ_self _, hlimit⟩
  · cases h

theorem walkStrings_eq {start : Nat} {depth : Int} {found : List β}
    (h : ReflTransGen (Follows (walkRound serde text limit visit)) ⟨start, 0, []⟩
      ⟨limit, depth, found⟩) :
    walkStrings serde text start limit visit = found := by
  have hdone : walkRound serde text limit visit ⟨limit, depth, found⟩ = none :=
    if_neg (Nat.lt_irrefl limit)
  have hreturn : ∃ last, rounds (walkRound serde text limit visit) (limit + 1) ⟨start, 0, []⟩ =
      some last :=
    rounds_return_upTo Walk.current limit (fun _ _ h => walkRound_lt h) _
  rw [walkStrings, rounds_eq_of_leads h hdone hreturn]
  rfl

/-! ## One token -/

def tokenAt (before : List Token) (s : StringToken) : JsonStringToken :=
  ⟨s.decode, width before, width (before ++ [.string s])⟩

section

variable {tokens : List Token} (hstrings : ∀ s, .string s ∈ tokens →
  serde.fromStrString s.text = some s.decode)

include hstrings

theorem walkRound_string (visit : Int → JsonStringToken → Option β) {before rest : List Token}
    {s : StringToken} (depth : Int) (found : List β)
    (htokens : tokens = before ++ .string s :: rest)
    (hlimit : width before < limit) :
    Follows (walkRound serde (render tokens) limit visit) ⟨width before, depth, found⟩
      ⟨width (before ++ [.string s]), depth,
        found ++ (visit depth (tokenAt before s)).toList⟩ := by
  have hat : (utf8 (render tokens))[width before]? = some (byteOf '"') := by
    rw [htokens]
    exact byteAt before (.string s) rest
  have hread := readJsonString_token (congrArg render htokens)
    (hstrings s (by rw [htokens]; simp))
  rw [Follows, walkRound, if_pos hlimit, hat, Option.bind_some, if_pos rfl, hread]
  rfl

omit hstrings in
theorem walkRound_other (serde : SerdeJson) (visit : Int → JsonStringToken → Option β)
    {before rest : List Token} {t : Token} (depth : Int) (found : List β)
    (htokens : tokens = before ++ t :: rest) (ht : ∀ s, t ≠ .string s)
    (hlimit : width before < limit) :
    Follows (walkRound serde (render tokens) limit visit) ⟨width before, depth, found⟩
      ⟨width (before ++ [t]), depth + brackets t, found⟩ := by
  have hat : (utf8 (render tokens))[width before]? = some (byteOf t.first) := by
    rw [htokens]
    exact byteAt before t rest
  rw [Follows, walkRound, if_pos hlimit, hat, Option.bind_some, width_append, width_singleton ht]
  cases t with
  | string s => exact absurd rfl (ht s)
  | space s => cases s <;> simp [Token.first, Space.char, brackets, byteOf]
  | mark m => cases m <;> simp [Token.first, Mark.char, brackets, byteOf, Int.sub_eq_add_neg]
  | atom c =>
    have hne : ∀ d, isAtom d = false → d.toNat < 128 → byteOf c.val ≠ byteOf d :=
      fun d => isAtom_ne c
    have hzero : brackets (.atom c) = 0 := rfl
    rw [Token.first, if_neg (hne _ (by decide) (by decide)), hzero, Int.add_zero]
    simp [hne '\x7b' (by decide) (by decide), hne '[' (by decide) (by decide),
      hne '\x7d' (by decide) (by decide), hne ']' (by decide) (by decide)]

end

/-! ## Balanced tokens -/

def Still (t : Token) : Prop := (∀ s, t ≠ .string s) ∧ brackets t = 0

theorem still_spaces (ss : List Space) : ∀ t ∈ spaces ss, Still t := by
  intro t ht
  obtain ⟨s, -, rfl⟩ := List.mem_map.mp ht
  exact ⟨by rintro _ ⟨⟩, rfl⟩

theorem still_atoms (atoms : List Atom) : ∀ t ∈ atoms.map Token.atom, Still t := by
  intro t ht
  obtain ⟨c, -, rfl⟩ := List.mem_map.mp ht
  exact ⟨by rintro _ ⟨⟩, rfl⟩

theorem openBrace_depth : brackets (.mark .openBrace) = 1 := rfl

theorem closeBrace_depth : brackets (.mark .closeBrace) = -1 := rfl

theorem openBracket_depth : brackets (.mark .openBracket) = 1 := rfl

theorem closeBracket_depth : brackets (.mark .closeBracket) = -1 := rfl

/-- What looks at the keys of one object only. -/
structure KeyVisit (text : List Char) (visit : Int → JsonStringToken → Option β) : Prop where
  depth : ∀ depth token, depth ≠ 1 → visit depth token = none
  colon : ∀ depth token,
    (utf8 text)[skipWhitespace (utf8 text) token.finish]? ≠ some (byteOf ':') →
      visit depth token = none

section

variable {tokens : List Token} (hstrings : ∀ s, .string s ∈ tokens →
  serde.fromStrString s.text = some s.decode)
variable (hvisit : KeyVisit (render tokens) visit)

include hstrings hvisit

omit hstrings hvisit in
/-- The walk goes in at one token and out at another. -/
theorem leads_around {a b : Token} {ts before rest : List Token} {depth : Int}
    {found found' : List β} (ha : brackets a = 1) (hb : brackets b = -1)
    (htokens : tokens = before ++ [a] ++ ts ++ b :: rest)
    (hlimit : width (before ++ [a] ++ ts ++ [b]) ≤ limit)
    (hinside : ReflTransGen (Follows (walkRound serde (render tokens) limit visit))
      ⟨width (before ++ [a]), depth + 1, found⟩ ⟨width (before ++ [a] ++ ts), depth + 1, found'⟩) :
    ReflTransGen (Follows (walkRound serde (render tokens) limit visit))
      ⟨width before, depth, found⟩ ⟨width (before ++ [a] ++ ts ++ [b]), depth, found'⟩ := by
  have hstart : tokens = before ++ a :: (ts ++ b :: rest) := by simpa using htokens
  have hcloseLt := Nat.lt_of_lt_of_le (width_lt_append (before ++ [a] ++ ts) b []) hlimit
  have hopenLt : width before < limit := by
    rw [width_append, width_append] at hcloseLt
    omega
  have hopen := walkRound_other serde visit depth found hstart (by rintro _ rfl; cases ha) hopenLt
  have hclose := walkRound_other serde visit (depth + 1) found' htokens (by rintro _ rfl; cases hb)
    hcloseLt
  rw [ha] at hopen
  rw [hb, Int.add_neg_cancel_right] at hclose
  exact (ReflTransGen.head hopen hinside).tail hclose

/-- Deeper than one level the walk passes over what is balanced. -/
theorem leads_deeper {ts : List Token} (h : Balanced brackets ts) {before rest : List Token}
    {depth : Int} (found : List β) (htokens : tokens = before ++ ts ++ rest) (hdepth : 2 ≤ depth)
    (hlimit : width (before ++ ts) ≤ limit) :
    ReflTransGen (Follows (walkRound serde (render tokens) limit visit))
      ⟨width before, depth, found⟩ ⟨width (before ++ ts), depth, found⟩ := by
  induction h generalizing before rest depth with
  | nil =>
    simp only [List.append_nil]
    exact .refl
  | @neutral t ht =>
    have htokens' : tokens = before ++ t :: rest := by simpa using htokens
    have hlt := Nat.lt_of_lt_of_le (width_lt_append before t []) hlimit
    cases t with
    | string s =>
      have hround := walkRound_string hstrings visit depth found htokens' hlt
      have hnone := hvisit.depth depth (tokenAt before s) (by omega)
      rw [hnone, Option.toList_none, List.append_nil] at hround
      exact .single hround
    | _ =>
      have hround := walkRound_other serde visit depth found htokens'
        (by rintro _ ⟨⟩) hlt
      rw [ht, Int.add_zero] at hround
      exact .single hround
  | @append xs ys _ _ ihx ihy =>
    have hmiddle : width (before ++ xs) ≤ limit := by
      rw [← List.append_assoc, width_append (before ++ xs) ys] at hlimit
      omega
    have hfirst := @ihx before (ys ++ rest) depth (by simpa using htokens) hdepth hmiddle
    have hsecond := @ihy (before ++ xs) rest depth (by simpa using htokens) hdepth
      (by simpa using hlimit)
    rw [List.append_assoc] at hsecond
    exact hfirst.trans hsecond
  | @enclose a b xs ha _ hb ih =>
    have hend : before ++ a :: (xs ++ [b]) = before ++ [a] ++ xs ++ [b] := by simp
    have hfinish : tokens = before ++ [a] ++ xs ++ b :: rest := by simpa using htokens
    rw [hend] at hlimit ⊢
    have hlt := Nat.lt_of_lt_of_le (width_lt_append (before ++ [a] ++ xs) b []) hlimit
    have hinside := @ih (before ++ [a]) (b :: rest) (depth + 1) hfinish (by omega) hlt.le
    exact leads_around ha hb hfinish hlimit hinside

omit hstrings hvisit in
/-- Spaces, names and numbers are passed over at any depth. -/
theorem leads_still (serde : SerdeJson) (visit : Int → JsonStringToken → Option β)
    {ts : List Token} (h : ∀ t ∈ ts, Still t) {before rest : List Token} (depth : Int)
    (found : List β)
    (htokens : tokens = before ++ ts ++ rest) (hlimit : width (before ++ ts) ≤ limit) :
    ReflTransGen (Follows (walkRound serde (render tokens) limit visit))
      ⟨width before, depth, found⟩ ⟨width (before ++ ts), depth, found⟩ := by
  induction ts generalizing before with
  | nil =>
    rw [List.append_nil]
  | cons t ts ih =>
    obtain ⟨⟨hstring, hstill⟩, hlater⟩ := List.forall_mem_cons.mp h
    have htokens' : tokens = before ++ t :: (ts ++ rest) := by simpa using htokens
    have hlt := Nat.lt_of_lt_of_le (width_lt_append before t ts) hlimit
    have hround := walkRound_other serde visit depth found htokens' hstring
      hlt
    rw [hstill, Int.add_zero] at hround
    have hrest := @ih hlater (before ++ [t]) (by simpa using htokens) (by simpa using hlimit)
    rw [List.append_assoc] at hrest
    exact .head hround hrest

/-! ## One member -/

omit hstrings in
/-- Nothing is made of a string that no colon follows. -/
theorem visit_value {before rest : List Token} {s : StringToken} {ss : List Space} {t : Token}
    (depth : Int) (htokens : tokens = before ++ .string s :: spaces ss ++ t :: rest)
    (ht : t = .mark .comma ∨ t = .mark .closeBrace) :
    visit depth (tokenAt before s) = none := by
  have htokens' : tokens = before ++ [.string s] ++ spaces ss ++ t :: rest := by
    simpa using htokens
  have hspace : isJsonWhitespace (byteOf t.first) = false := by
    rcases ht with rfl | rfl <;> decide
  have hcolon : byteOf t.first ≠ byteOf ':' := by
    rcases ht with rfl | rfl <;> decide
  have hskip := skipWhitespace_spaces (congrArg render htokens') hspace
  have hat : (utf8 (render tokens))[width (before ++ [.string s] ++ spaces ss)]? =
      some (byteOf t.first) := by
    rw [htokens']
    exact byteAt _ t rest
  apply hvisit.colon
  rw [tokenAt, hskip, hat]
  intro hsame
  exact hcolon (Option.some.inj hsame)

/-- The walk passes over what is balanced between two brackets. -/
theorem leads_enclosed {a b : Token} {ts before rest : List Token} (ha : brackets a = 1)
    (hts : Balanced brackets ts) (hb : brackets b = -1) (found : List β)
    (htokens : tokens = before ++ (a :: (ts ++ [b])) ++ rest)
    (hlimit : width (before ++ (a :: (ts ++ [b]))) ≤ limit) :
    ReflTransGen (Follows (walkRound serde (render tokens) limit visit))
      ⟨width before, 1, found⟩ ⟨width (before ++ (a :: (ts ++ [b]))), 1, found⟩ := by
  have hend : before ++ (a :: (ts ++ [b])) = before ++ [a] ++ ts ++ [b] := by simp
  have hfinish : tokens = before ++ [a] ++ ts ++ b :: rest := by simpa using htokens
  rw [hend] at hlimit ⊢
  have hlt := Nat.lt_of_lt_of_le (width_lt_append (before ++ [a] ++ ts) b []) hlimit
  have hinside := leads_deeper hstrings hvisit hts found hfinish (Int.le_refl 2) hlt.le
  exact leads_around ha hb hfinish hlimit hinside

/-- The walk passes over the value of a member. -/
theorem leads_tree (tree : Tree) {before rest : List Token} {ss : List Space} {t : Token}
    (found : List β) (htokens : tokens = before ++ tree.tokens ++ spaces ss ++ t :: rest)
    (ht : t = .mark .comma ∨ t = .mark .closeBrace)
    (hlimit : width (before ++ tree.tokens) ≤ limit) :
    ReflTransGen (Follows (walkRound serde (render tokens) limit visit))
      ⟨width before, 1, found⟩ ⟨width (before ++ tree.tokens), 1, found⟩ := by
  rw [List.append_assoc] at htokens
  cases tree with
  | name name =>
    rw [Tree.tokens] at htokens hlimit ⊢
    exact leads_still serde visit (still_atoms _) 1 found htokens hlimit
  | number number =>
    rw [Tree.tokens] at htokens hlimit ⊢
    exact leads_still serde visit (still_atoms _) 1 found htokens hlimit
  | string s =>
    rw [Tree.tokens] at htokens hlimit ⊢
    have htokens' : tokens = before ++ .string s :: spaces ss ++ t :: rest := by
      simpa using htokens
    have hlt := Nat.lt_of_lt_of_le (width_lt_append before (.string s) []) hlimit
    have hround := walkRound_string hstrings visit 1 found
      (htokens'.trans (List.append_assoc before _ _)) hlt
    rw [visit_value hvisit 1 htokens' ht, Option.toList_none, List.append_nil] at hround
    exact .single hround
  | emptyArray inside =>
    rw [Tree.tokens] at htokens hlimit ⊢
    exact leads_enclosed hstrings hvisit openBracket_depth (balanced_spaces counts_brackets inside)
      closeBracket_depth found htokens hlimit
  | array elements =>
    rw [Tree.tokens] at htokens hlimit ⊢
    exact leads_enclosed hstrings hvisit openBracket_depth
      (balanced_elements counts_brackets elements)
      closeBracket_depth found htokens hlimit
  | emptyObject inside =>
    rw [Tree.tokens] at htokens hlimit ⊢
    exact leads_enclosed hstrings hvisit openBrace_depth (balanced_spaces counts_brackets inside)
      closeBrace_depth found htokens hlimit
  | object members =>
    rw [Tree.tokens] at htokens hlimit ⊢
    exact leads_enclosed hstrings hvisit openBrace_depth (balanced_members counts_brackets members)
      closeBrace_depth found htokens hlimit

/-- A member is found by its key. -/
theorem leads_member (m : Member) {before rest : List Token} {t : Token} (found : List β)
    (htokens : tokens = before ++ m.tokens ++ t :: rest)
    (ht : t = .mark .comma ∨ t = .mark .closeBrace)
    (hlimit : width (before ++ m.tokens) ≤ limit) :
    ReflTransGen (Follows (walkRound serde (render tokens) limit visit))
      ⟨width before, 1, found⟩
      ⟨width (before ++ m.tokens), 1,
        found ++ (visit 1 (tokenAt (before ++ spaces m.before) m.key)).toList⟩ := by
  let front := before ++ spaces m.before
  let colon := front ++ [.string m.key] ++ spaces m.afterKey
  let value := colon ++ [.mark .colon] ++ spaces m.beforeTree
  let later := found ++ (visit 1 (tokenAt front m.key)).toList
  have hfront : tokens = before ++ spaces m.before ++ (.string m.key :: spaces m.afterKey ++
      .mark .colon :: spaces m.beforeTree ++ m.tree.tokens ++ spaces m.after ++ t :: rest) := by
    simpa [Member.tokens, Member.head] using htokens
  have hkey : tokens = front ++ .string m.key :: (spaces m.afterKey ++
      .mark .colon :: spaces m.beforeTree ++ m.tree.tokens ++ spaces m.after ++ t :: rest) := by
    simpa [front] using hfront
  have hafter : tokens = front ++ [.string m.key] ++ spaces m.afterKey ++ (.mark .colon ::
      spaces m.beforeTree ++ m.tree.tokens ++ spaces m.after ++ t :: rest) := by
    simpa using hkey
  have hcolon : tokens = colon ++ .mark .colon :: (spaces m.beforeTree ++ m.tree.tokens ++
      spaces m.after ++ t :: rest) := by
    simpa [colon] using hafter
  have hspaces : tokens = colon ++ [.mark .colon] ++ spaces m.beforeTree ++ (m.tree.tokens ++
      spaces m.after ++ t :: rest) := by
    simpa using hcolon
  have hvalue : tokens = value ++ m.tree.tokens ++ spaces m.after ++ t :: rest := by
    simpa [value] using hspaces
  have hend : before ++ m.tokens = value ++ m.tree.tokens ++ spaces m.after := by
    simp [Member.tokens, Member.head, value, colon, front]
  rw [hend] at hlimit ⊢
  have hvalueLimit : width (value ++ m.tree.tokens) ≤ limit := by
    rw [width_append] at hlimit
    omega
  have hspacesLimit : width value ≤ limit := by
    rw [width_append] at hvalueLimit
    omega
  have hcolonLimit : width colon < limit := by
    rw [width_append, width_append, width_mark] at hspacesLimit
    omega
  have hfrontLimit : width front < limit := by
    have hlt := width_lt_append front (.string m.key) (spaces m.afterKey)
    have hcons : colon = front ++ .string m.key :: spaces m.afterKey := by simp [colon]
    rw [← hcons] at hlt
    omega
  have hleadsFront := leads_still serde visit (still_spaces m.before) 1 found hfront
    hfrontLimit.le
  have hkeyRound := walkRound_string hstrings visit 1 found hkey hfrontLimit
  have hleadsColon := leads_still serde visit (still_spaces m.afterKey) 1 later hafter
    hcolonLimit.le
  have hcolonRound := walkRound_other serde visit 1 later hcolon (by rintro _ ⟨⟩) hcolonLimit
  have hleadsValue := leads_still serde visit (still_spaces m.beforeTree) 1 later hspaces
    hspacesLimit
  have hleadsTree := leads_tree hstrings hvisit m.tree later hvalue ht hvalueLimit
  have hleadsEnd := leads_still serde visit (still_spaces m.after) 1 later hvalue hlimit
  have hleadsKey := (hleadsFront.tail hkeyRound).trans hleadsColon
  exact ((((hleadsKey.tail hcolonRound).trans hleadsValue).trans hleadsTree).trans hleadsEnd)

/-! ## One object -/

/-- The members of an object are found by their keys, in turn. -/
theorem leads_members : (members : Members) → (before after : List Token) → (found : List β) →
    tokens = before ++ members.tokens ++ .mark .closeBrace :: after →
    width (before ++ members.tokens) ≤ limit →
    ReflTransGen (Follows (walkRound serde (render tokens) limit visit))
      ⟨width before, 1, found⟩
      ⟨width (before ++ members.tokens), 1,
        found ++ (members.places before (.mark .closeBrace :: after)).filterMap
          fun p => visit 1 (tokenAt p.keyFront p.member.key)⟩
  | .last b key afterKey beforeTree tree a, before, after, found, htokens, hlimit => by
      let m : Member := ⟨b, key, afterKey, beforeTree, tree, a⟩
      rw [Members.tokens_last] at htokens hlimit ⊢
      have hmember := leads_member hstrings hvisit m found htokens (.inr rfl) hlimit
      rw [Members.places, List.filterMap_eq_flatMap_toList]
      simpa [Place.keyFront, m] using hmember
  | .cons b key afterKey beforeTree tree a rest, before, after, found, htokens, hlimit => by
      let m : Member := ⟨b, key, afterKey, beforeTree, tree, a⟩
      let later := found ++ (visit 1 (tokenAt (before ++ spaces m.before) m.key)).toList
      rw [Members.tokens_cons] at htokens hlimit ⊢
      have hcomma : tokens = before ++ m.tokens ++ .mark .comma ::
          (rest.tokens ++ .mark .closeBrace :: after) := by
        simpa [m] using htokens
      have hrest : tokens = before ++ m.tokens ++ [.mark .comma] ++ rest.tokens ++
          .mark .closeBrace :: after := by
        simpa [m] using htokens
      have hend : before ++ (m.tokens ++ .mark .comma :: rest.tokens) =
          before ++ m.tokens ++ [.mark .comma] ++ rest.tokens := by simp
      rw [hend] at hlimit ⊢
      have hcommaLimit : width (before ++ m.tokens) < limit := by
        rw [width_append, width_append, width_mark] at hlimit
        omega
      have hmember := leads_member hstrings hvisit m found hcomma (.inl rfl) hcommaLimit.le
      have hround := walkRound_other serde visit 1 later hcomma (by rintro _ ⟨⟩) hcommaLimit
      have hmembers := leads_members rest (before ++ m.tokens ++ [.mark .comma]) after later hrest
        hlimit
      have hfound : found ++ ((Members.cons b key afterKey beforeTree tree a rest).places before
          (.mark .closeBrace :: after)).filterMap
            (fun p => visit 1 (tokenAt p.keyFront p.member.key)) =
          later ++ (rest.places (before ++ m.tokens ++ [.mark .comma])
            (.mark .closeBrace :: after)).filterMap
              fun p => visit 1 (tokenAt p.keyFront p.member.key) := by
        rw [Members.places, List.filterMap_eq_flatMap_toList, List.flatMap_cons,
          ← List.append_assoc, ← List.filterMap_eq_flatMap_toList]
        rfl
      rw [hfound]
      exact (hmember.tail hround).trans hmembers

/-- A walk through an object finds its members. -/
theorem leads_places (tree : Tree) {before rest : List Token} (found : List β)
    (hobject : ∃ rows, tree.value = .object rows)
    (htokens : tokens = before ++ tree.tokens ++ rest)
    (hlimit : width (before ++ tree.tokens) ≤ limit) :
    ReflTransGen (Follows (walkRound serde (render tokens) limit visit))
      ⟨width before, 0, found⟩
      ⟨width (before ++ tree.tokens), 0,
        found ++ (tree.places before rest).filterMap
          fun p => visit 1 (tokenAt p.keyFront p.member.key)⟩ := by
  cases tree with
  | object members =>
    rw [Tree.tokens] at htokens hlimit ⊢
    have hend : before ++ .mark .openBrace :: (members.tokens ++ [.mark .closeBrace]) =
        before ++ [.mark .openBrace] ++ members.tokens ++ [.mark .closeBrace] := by simp
    have hfinish : tokens = before ++ [.mark .openBrace] ++ members.tokens ++
        .mark .closeBrace :: rest := by
      simpa using htokens
    rw [hend] at hlimit ⊢
    have hlt := Nat.lt_of_lt_of_le
      (width_lt_append (before ++ [.mark .openBrace] ++ members.tokens)
        (.mark .closeBrace) []) hlimit
    have hinside := leads_members hstrings hvisit members _ rest found hfinish hlt.le
    exact leads_around openBrace_depth closeBrace_depth hfinish hlimit hinside
  | emptyObject inside =>
    rw [Tree.tokens] at htokens hlimit ⊢
    have hend : before ++ .mark .openBrace :: (spaces inside ++ [.mark .closeBrace]) =
        before ++ [.mark .openBrace] ++ spaces inside ++ [.mark .closeBrace] := by simp
    have hfinish : tokens = before ++ [.mark .openBrace] ++ spaces inside ++
        .mark .closeBrace :: rest := by
      simpa using htokens
    rw [hend] at hlimit ⊢
    have hlt := Nat.lt_of_lt_of_le
      (width_lt_append (before ++ [.mark .openBrace] ++ spaces inside)
        (.mark .closeBrace) []) hlimit
    have hinside := leads_still serde visit (still_spaces inside) 1 found hfinish hlt.le
    have hnone : (Tree.emptyObject inside).places before rest = [] := rfl
    rw [hnone, List.filterMap_nil, List.append_nil]
    exact leads_around openBrace_depth closeBrace_depth hfinish hlimit hinside
  | name name =>
    obtain ⟨rows, hrows⟩ := hobject
    cases name <;> cases hrows
  | _ =>
    obtain ⟨rows, hrows⟩ := hobject
    cases hrows

end

end ImportLens.Document.PackageJson

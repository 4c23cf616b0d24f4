import DecentralizedCloud.Common.Fields

/-!
# Messages between nodes

A message is a text of fields, separated by `|`, and a field is a name and a value,
separated by `:`. `getFieldsAndValues` reads only the value between the first colon
and the second one, and decodes the two delimiters in it. A field that comes twice
keeps its first value (`at?_getFieldsAndValues`).
-/

namespace DecentralizedCloud

/-- `boost::split` at one character: adjacent delimiters enclose an empty piece. -/
def split (delimiter : Char) (s : String) : List String :=
  (s.toList.splitOn delimiter).map String.ofList

/-- `boost::replace_all` of a text of three characters. -/
def replaceAll (a b c new : Char) : List Char → List Char
  | x :: y :: z :: rest =>
      if x = a ∧ y = b ∧ z = c then new :: replaceAll a b c new rest
      else x :: replaceAll a b c new (y :: z :: rest)
  | rest => rest

/-- The delimiters of a message back in place of their codes. -/
def decodeDelimiters (value : List Char) : List Char :=
  replaceAll '%' '7' 'C' '|' (replaceAll '%' '3' 'A' ':' value)

/-- The name and the value of a field; `none` when it has no colon. -/
def fieldAndValue (pair : String) : Option (String × String) :=
  match split ':' pair with
  | field :: value :: _ => some (field, String.ofList (decodeDelimiters value.toList))
  | _ => none

/-- `none` when a field has no colon. -/
def getFieldsAndValues (inputString : String) : Option FieldValueMap :=
  (split '|' inputString).foldlM (fun hashMap pair =>
    (fieldAndValue pair).map fun kv => FieldValueMap.insert hashMap kv.1 kv.2) []

/-- `removeNullTerminators` -/
def removeNullTerminators (str : String) : String :=
  String.ofList (str.toList.filter (· ≠ '\x00'))

/-- A text that is kept as a C string: it ends before the first null character. -/
def cString (s : String) : String := String.ofList (s.toList.takeWhile (· ≠ '\x00'))

/-- What goes with a message: ids that are made for it, and its sender. -/
structure Envelope where
  msgid : String
  k : String
  now : Int
  nonce : String

/-- The text that a node receives for one that another node has passed to `gossip`; the
receiver adds the nonce. -/
def gossiped (e : Envelope) (msg : String) : String :=
  removeNullTerminators (msg ++ "|msgid:" ++ e.msgid ++ "|k:" ++ e.k ++ "|tm:" ++ toString e.now) ++
    "|nonce:" ++ e.nonce

/-- Statements about the characters of a text are decided along the text; the instance for
statements about all characters would go through all of them. -/
instance (priority := high) decidableForallMem {p : Char → Prop} [DecidablePred p]
    (cs : List Char) : Decidable (∀ c ∈ cs, p c) :=
  List.decidableBAll p cs

/-! ## Pieces -/

section Pieces

variable {d : Char} {xs : List Char}

theorem takeWhile_of_notMem (h : d ∉ xs) : xs.takeWhile (· ≠ d) = xs := by
  rw [List.takeWhile_eq_self_iff]
  intro c hc
  rw [decide_eq_true_eq]
  rintro rfl
  exact h hc

theorem takeWhile_append (h : d ∉ xs) (ys : List Char) :
    (xs ++ ys).takeWhile (· ≠ d) = xs ++ ys.takeWhile (· ≠ d) := by
  rw [List.takeWhile_append_of_pos]
  intro c hc
  rw [decide_eq_true_eq]
  rintro rfl
  exact h hc

theorem takeWhile_append_of_notMem (h : d ∉ xs) (ys : List Char) :
    (xs ++ d :: ys).takeWhile (· ≠ d) = xs := by
  rw [takeWhile_append h, List.takeWhile_cons_of_neg (by simp), List.append_nil]

/-- The first piece. -/
theorem splitOn_eq_cons (d : Char) (xs : List Char) :
    ∃ rest, xs.splitOn d = xs.takeWhile (· ≠ d) :: rest := by
  induction xs with
  | nil => exact ⟨[], rfl⟩
  | cons c cs ih =>
      rcases ih with ⟨rest, hrest⟩
      rw [List.splitOn_cons_eq_if_modifyHead]
      by_cases h : c = d
      · exact ⟨cs.splitOn d, by simp [h]⟩
      · exact ⟨rest, by simp [h, hrest]⟩

/-- A piece is preceded by a delimiter unless it is the first one. -/
theorem delimited_of_mem_splitOn {piece : List Char} (h : piece ∈ xs.splitOn d) :
    ∃ before behind, xs = before ++ piece ++ behind ∧ (before = [] ∨ [d] <:+ before) := by
  have hpieces : ∀ pieces : List (List Char), piece ∈ pieces →
      ∃ before behind, [d].intercalate pieces = before ++ piece ++ behind ∧
        (before = [] ∨ [d] <:+ before) := by
    intro pieces
    -- the pieces and delimiters, one after the other
    induction pieces with
    | nil => simp
    | cons p pieces ih =>
        cases pieces with
        | nil =>
            intro h
            exact ⟨[], [], by simpa using (List.mem_singleton.mp h).symm, .inl rfl⟩
        | cons p' pieces =>
            intro h
            rw [List.intercalate_cons_cons]
            rcases List.mem_cons.mp h with rfl | h
            · exact ⟨[], [d] ++ [d].intercalate (p' :: pieces), by simp, .inl rfl⟩
            · rcases ih h with ⟨before, behind, hbefore, hdelimited⟩
              refine ⟨p ++ [d] ++ before, behind, by simp [hbefore], .inr ?_⟩
              rcases hdelimited with rfl | hdelimited
              · simp
              · exact hdelimited.trans (List.suffix_append _ _)
  have hall := hpieces _ h
  rwa [List.intercalate_splitOn] at hall

theorem split_append_of_notMem (h : d ∉ xs) (s : List Char) :
    split d (String.ofList (xs ++ d :: s)) = String.ofList xs :: split d (String.ofList s) := by
  simp [split, List.splitOn_append_cons_self_of_not_mem h]

theorem split_of_notMem (h : d ∉ xs) : split d (String.ofList xs) = [String.ofList xs] := by
  simp [split, List.splitOn_eq_singleton h]

end Pieces

/-! ## Replacing -/

section Replace

variable {a b c new : Char}

theorem length_replaceAll_le (xs : List Char) : (replaceAll a b c new xs).length ≤ xs.length := by
  fun_induction replaceAll a b c new xs with
  | case1 x y z rest h ih =>
      simp only [List.length_cons]
      omega
  | case2 x y z rest h ih =>
      simp only [List.length_cons] at ih ⊢
      omega
  | case3 rest h => exact Nat.le_refl _

theorem replaceAll_eq_self {xs : List Char} (h : ¬ [a, b, c] <:+: xs) :
    replaceAll a b c new xs = xs := by
  fun_induction replaceAll a b c new xs with
  | case1 x y z rest heq ih =>
      rcases heq with ⟨rfl, rfl, rfl⟩
      exact absurd ⟨[], rest, rfl⟩ h
  | case2 x y z rest heq ih =>
      rw [ih fun hinf => h (hinf.trans (List.suffix_cons x _).isInfix)]
  | case3 rest hrest => rfl

/-- A replacement of three characters by one makes the text shorter, if there is one. -/
theorem length_replaceAll_lt {xs : List Char} (h : [a, b, c] <:+: xs) :
    (replaceAll a b c new xs).length < xs.length := by
  fun_induction replaceAll a b c new xs with
  | case1 x y z rest heq ih =>
      have hle : (replaceAll a b c new rest).length ≤ rest.length := length_replaceAll_le rest
      simp only [List.length_cons]
      omega
  | case2 x y z rest heq ih =>
      rcases List.infix_cons_iff.mp h with hpre | hinf
      · simp only [List.cons_prefix_cons] at hpre
        exact absurd ⟨hpre.1.symm, hpre.2.1.symm, hpre.2.2.1.symm⟩ heq
      · have hlt := ih hinf
        simp only [List.length_cons] at hlt ⊢
        omega
  | case3 rest hrest =>
      rcases rest with _ | ⟨x, _ | ⟨y, _ | ⟨z, rest⟩⟩⟩
      · simp at h
      · exact absurd h.length_le (by simp)
      · exact absurd h.length_le (by simp)
      · exact absurd rfl (hrest x y z rest)

theorem replaceAll_cons {x : Char} {xs : List Char} (h : ¬ [a, b, c] <+: x :: xs) :
    replaceAll a b c new (x :: xs) = x :: replaceAll a b c new xs := by
  rcases xs with _ | ⟨y, _ | ⟨z, rest⟩⟩
  · rfl
  · rfl
  · rw [replaceAll, if_neg]
    rintro ⟨rfl, rfl, rfl⟩
    exact h ⟨rest, rfl⟩

/-- A character that is not in the text that is replaced separates what is done before it
and behind it. -/
theorem replaceAll_append {d : Char} (ha : d ≠ a) (hb : d ≠ b) (hc : d ≠ c) (xs ys : List Char) :
    replaceAll a b c new (xs ++ d :: ys) =
      replaceAll a b c new xs ++ d :: replaceAll a b c new ys := by
  have hself : replaceAll a b c new (d :: ys) = d :: replaceAll a b c new ys :=
    replaceAll_cons (by simp [List.cons_prefix_cons, ha.symm])
  fun_induction replaceAll a b c new xs with
  | case1 x y z rest h ih =>
      simp only [List.cons_append] at ih ⊢
      rw [replaceAll, if_pos h, ih]
  | case2 x y z rest h ih =>
      simp only [List.cons_append] at ih ⊢
      rw [replaceAll, if_neg h, ih]
  -- fewer than three characters are left, and the separator breaks every match
  | case3 rest hrest =>
      rcases rest with _ | ⟨x, _ | ⟨y, _ | ⟨z, rest⟩⟩⟩
      · exact hself
      · have hx : ¬ [a, b, c] <+: x :: d :: ys := by
          simp [List.cons_prefix_cons, hb.symm]
        rw [List.singleton_append, replaceAll_cons hx, hself, List.singleton_append]
      · have hx : ¬ [a, b, c] <+: x :: y :: d :: ys := by
          simp [List.cons_prefix_cons, hc.symm]
        have hy : ¬ [a, b, c] <+: y :: d :: ys := by
          simp [List.cons_prefix_cons, hb.symm]
        rw [List.cons_append, List.singleton_append, replaceAll_cons hx, replaceAll_cons hy, hself]
        rfl
      · exact absurd rfl (hrest x y z rest)

theorem mem_replaceAll {x : Char} {xs : List Char} (h : x ∈ replaceAll a b c new xs) :
    x ∈ xs ∨ x = new := by
  fun_induction replaceAll a b c new xs with
  | case1 y z w rest heq ih =>
      rcases List.mem_cons.mp h with rfl | h
      · exact .inr rfl
      · rcases ih h with h | h
        · exact .inl (by simp [h])
        · exact .inr h
  | case2 y z w rest heq ih =>
      rcases List.mem_cons.mp h with rfl | h
      · exact .inl List.mem_cons_self
      · rcases ih h with h | h
        · exact .inl (List.mem_cons_of_mem _ h)
        · exact .inr h
  | case3 rest hrest => exact .inl h

end Replace

section Decode

/-- No code of a delimiter stands in the text. -/
def Decoded (value : List Char) : Prop :=
  ¬ ['%', '3', 'A'] <:+: value ∧ ¬ ['%', '7', 'C'] <:+: value

theorem length_decodeDelimiters_le (value : List Char) :
    (decodeDelimiters value).length ≤ value.length :=
  (length_replaceAll_le _).trans (length_replaceAll_le _)

/-- Decoding leaves exactly the texts without an escape. -/
theorem decodeDelimiters_eq_self_iff (value : List Char) :
    decodeDelimiters value = value ↔ Decoded value := by
  unfold decodeDelimiters Decoded
  by_cases hcolon : ['%', '3', 'A'] <:+: value
  · have hlt : (replaceAll '%' '3' 'A' ':' value).length < value.length :=
      length_replaceAll_lt hcolon
    have hle : (replaceAll '%' '7' 'C' '|' (replaceAll '%' '3' 'A' ':' value)).length ≤
        (replaceAll '%' '3' 'A' ':' value).length := length_replaceAll_le _
    simp only [hcolon, not_true_eq_false, false_and, iff_false]
    intro heq
    rw [heq] at hle
    omega
  · rw [replaceAll_eq_self hcolon]
    by_cases hbar : ['%', '7', 'C'] <:+: value
    · have hlt : (replaceAll '%' '7' 'C' '|' value).length < value.length :=
        length_replaceAll_lt hbar
      simp only [hbar, not_true_eq_false, and_false, iff_false]
      intro heq
      rw [heq] at hlt
      omega
    · simp [hcolon, hbar, replaceAll_eq_self hbar]

theorem decoded_of_notMem {value : List Char} (h : '%' ∉ value) : Decoded value :=
  ⟨fun hinf => h (hinf.subset (by simp)), fun hinf => h (hinf.subset (by simp))⟩

theorem decodeDelimiters_append {d : Char} (h : d ∉ ['%', '3', 'A', '7', 'C']) (xs ys : List Char) :
    decodeDelimiters (xs ++ d :: ys) = decodeDelimiters xs ++ d :: decodeDelimiters ys := by
  simp only [List.mem_cons, List.not_mem_nil, or_false, not_or] at h
  unfold decodeDelimiters
  rw [replaceAll_append h.1 h.2.1 h.2.2.1, replaceAll_append h.1 h.2.2.2.1 h.2.2.2.2]

theorem mem_decodeDelimiters {x : Char} {value : List Char} (h : x ∈ decodeDelimiters value) :
    x ∈ value ∨ x = ':' ∨ x = '|' := by
  rcases mem_replaceAll h with h | h
  · rcases mem_replaceAll h with h | h
    · exact .inl h
    · exact .inr (.inl h)
  · exact .inr (.inr h)

/-- Splitting and decoding commute, at a delimiter of another kind. -/
theorem splitOn_decodeDelimiters {d : Char} (h : d ∉ ['%', '3', 'A', '7', 'C', ':', '|'])
    (value : List Char) :
    (decodeDelimiters value).splitOn d = (value.splitOn d).map decodeDelimiters := by
  simp only [List.mem_cons, List.not_mem_nil, or_false, not_or] at h
  have hcodes : d ∉ ['%', '3', 'A', '7', 'C'] := by simp [h]
  have hnot : ∀ {cs : List Char}, d ∉ cs → d ∉ decodeDelimiters cs := by
    intro cs hcs hmem
    rcases mem_decodeDelimiters hmem with hmem | rfl | rfl
    · exact hcs hmem
    · exact h.2.2.2.2.2.1 rfl
    · exact h.2.2.2.2.2.2 rfl
  induction hn : value.length using Nat.strong_induction_on generalizing value with
  | h n ih =>
      by_cases hd : d ∈ value
      · rcases List.eq_append_cons_of_mem hd with ⟨piece, rest, rfl, hpiece⟩
        have hlt : rest.length < n := by
          simp only [List.length_append, List.length_cons] at hn
          omega
        rw [decodeDelimiters_append hcodes, List.splitOn_append_cons_self_of_not_mem (hnot hpiece),
          List.splitOn_append_cons_self_of_not_mem hpiece, List.map_cons, ih _ hlt rest rfl]
      · rw [List.splitOn_eq_singleton (hnot hd), List.splitOn_eq_singleton hd, List.map_singleton]

end Decode

/-! ## Fields -/

section FieldsAndValues

theorem fieldAndValue_eq {name : List Char} (h : ':' ∉ name) (value : List Char) :
    fieldAndValue (String.ofList (name ++ ':' :: value)) =
      some (String.ofList name,
        String.ofList (decodeDelimiters (value.takeWhile (· ≠ ':')))) := by
  rcases splitOn_eq_cons ':' value with ⟨rest, hrest⟩
  rw [fieldAndValue, split_append_of_notMem h]
  simp [split, hrest]

theorem fieldAndValue_eq_none {pair : List Char} (h : ':' ∉ pair) :
    fieldAndValue (String.ofList pair) = none := by
  rw [fieldAndValue, split_of_notMem h]

/-- The name of a field ends at its first colon. -/
theorem name_of_fieldAndValue {pair : List Char} {kv : String × String}
    (h : fieldAndValue (String.ofList pair) = some kv) :
    ∃ name value, pair = name ++ ':' :: value ∧ kv.1.toList = name := by
  by_cases hcolon : ':' ∈ pair
  · rcases List.eq_append_cons_of_mem hcolon with ⟨name, value, rfl, hname⟩
    rw [fieldAndValue_eq hname] at h
    cases h
    exact ⟨name, value, rfl, String.toList_ofList⟩
  · rw [fieldAndValue_eq_none hcolon] at h
    cases h

/-- The fields are read one by one. -/
theorem getFieldsAndValues_eq (s : String) :
    getFieldsAndValues s = ((split '|' s).mapM fieldAndValue).map fun pairs =>
      pairs.foldl (fun hashMap kv => FieldValueMap.insert hashMap kv.1 kv.2) [] := by
  have hfold : ∀ (pieces : List String) (f₀ : FieldValueMap),
      pieces.foldlM (fun hashMap pair =>
          (fieldAndValue pair).map fun kv => FieldValueMap.insert hashMap kv.1 kv.2) f₀ =
        (pieces.mapM fieldAndValue).map fun pairs =>
          pairs.foldl (fun hashMap kv => FieldValueMap.insert hashMap kv.1 kv.2) f₀ := by
    intro pieces
    induction pieces with
    | nil => exact fun _ => rfl
    | cons pair pieces ih =>
        intro f₀
        rw [List.foldlM_cons, List.mapM_cons]
        cases fieldAndValue pair with
        | none => rfl
        | some kv =>
            simp only [Option.map_some, Option.bind_eq_bind, Option.bind_some, ih]
            cases pieces.mapM fieldAndValue <;> rfl
  exact hfold _ _

/-- The first value of a name counts. -/
theorem at?_getFieldsAndValues {s : String} {pairs : List (String × String)}
    (h : (split '|' s).mapM fieldAndValue = some pairs) :
    ∃ f, getFieldsAndValues s = some f ∧ ∀ name, f.at? name = pairs.lookup name := by
  rw [getFieldsAndValues_eq, h]
  refine ⟨_, rfl, fun name => ?_⟩
  rw [at?_foldl_insert]
  rfl

theorem at?_filter_ne {f : FieldValueMap} {name name' : String} (h : name' ≠ name) :
    FieldValueMap.at? (f.filter fun kv => kv.1 ≠ name) name' = f.at? name' := by
  induction f with
  | nil => rfl
  | cons kv f ih =>
      rcases kv with ⟨k, v⟩
      unfold FieldValueMap.at? at ih ⊢
      by_cases hk : k = name
      · subst hk
        have hne : (name' == k) = false := by simpa using h
        simpa [List.lookup_cons, hne] using ih
      · rw [List.filter_cons_of_pos (by simpa using hk), List.lookup_cons, List.lookup_cons, ih]

end FieldsAndValues

/-! ## Gossiped messages -/

section Gossiped

/-- A text without the characters that a message treats in a special way. -/
def Plain (s : String) : Prop := '|' ∉ s.toList ∧ ':' ∉ s.toList ∧ '\x00' ∉ s.toList

structure Envelope.IsPlain (e : Envelope) : Prop where
  msgid : Plain e.msgid
  k : Plain e.k
  nonce : Plain e.nonce
  now : -(2 ^ 63) ≤ e.now ∧ e.now < 2 ^ 63

/-- The fields in a text. -/
def pairsOf (cs : List Char) : Option (List (String × String)) :=
  ((cs.splitOn '|').map String.ofList).mapM fieldAndValue

theorem pairsOf_append (xs ys : List Char) :
    pairsOf (xs ++ '|' :: ys) = do return (← pairsOf xs) ++ (← pairsOf ys) := by
  rw [pairsOf, List.splitOn_append_cons_self, List.map_append, List.mapM_append]
  rfl

/-- Every field comes from a piece of the text. -/
theorem piece_of_mem_pairsOf {cs : List Char} {pairs : List (String × String)}
    (h : pairsOf cs = some pairs) {kv : String × String} (hkv : kv ∈ pairs) :
    ∃ piece ∈ cs.splitOn '|', fieldAndValue (String.ofList piece) = some kv := by
  have hmapM : ∀ (pieces : List String) (pairs : List (String × String)),
      pieces.mapM fieldAndValue = some pairs → kv ∈ pairs →
        ∃ piece ∈ pieces, fieldAndValue piece = some kv := by
    intro pieces
    induction pieces with
    | nil =>
        intro pairs h hkv
        cases h
        cases hkv
    | cons piece pieces ih =>
        intro pairs h hkv
        rw [List.mapM_cons] at h
        rcases Option.bind_eq_some_iff.mp h with ⟨first, hfirst, h⟩
        rcases Option.bind_eq_some_iff.mp h with ⟨rest, hrest, h⟩
        cases h
        -- the first pair comes from the first piece
        rcases List.mem_cons.mp hkv with rfl | hkv
        · exact ⟨piece, List.mem_cons_self, hfirst⟩
        · rcases ih rest hrest hkv with ⟨piece', hpiece', heq⟩
          exact ⟨piece', List.mem_cons_of_mem _ hpiece', heq⟩
  rcases hmapM _ _ h hkv with ⟨piece, hpiece, heq⟩
  rcases List.mem_map.mp hpiece with ⟨cs', hcs', rfl⟩
  exact ⟨cs', hcs', heq⟩

/-- A single field. -/
theorem pairsOf_field {name value : List Char} (hname : '|' ∉ name ∧ ':' ∉ name)
    (hvalue : '|' ∉ value) :
    pairsOf (name ++ ':' :: value) =
      some [(String.ofList name, String.ofList (decodeDelimiters (value.takeWhile (· ≠ ':'))))] := by
  have hbar : '|' ∉ name ++ ':' :: value := by simp [hname.1, hvalue]
  rw [pairsOf, List.splitOn_eq_singleton hbar, List.map_singleton, List.mapM_cons,
    fieldAndValue_eq hname.2]
  rfl

/-- What is read of a text that starts with a field. -/
theorem pairsOf_name {name : List Char} (hname : '|' ∉ name ∧ ':' ∉ name) (cs : List Char) :
    pairsOf (name ++ ':' :: cs) = none ∨ ∃ others, pairsOf (name ++ ':' :: cs) =
        some ((String.ofList name, String.ofList
          (decodeDelimiters ((cs.takeWhile (· ≠ '|')).takeWhile (· ≠ ':')))) :: others) ∧
      (others = [] ∨
        ∃ before behind, cs = before ++ '|' :: behind ∧ pairsOf behind = some others) := by
  by_cases hbar : '|' ∈ cs
  · rcases List.eq_append_cons_of_mem hbar with ⟨value, behind, rfl, hvalue⟩
    have hcons : name ++ ':' :: (value ++ '|' :: behind) = name ++ ':' :: value ++ '|' :: behind := by
      simp
    rw [hcons, pairsOf_append, pairsOf_field hname hvalue, takeWhile_append_of_notMem hvalue]
    cases hbehind : pairsOf behind with
    | none => exact .inl rfl
    | some others => exact .inr ⟨others, rfl, .inr ⟨value, behind, rfl, hbehind⟩⟩
  · rw [pairsOf_field hname hbar, takeWhile_of_notMem hbar]
    exact .inr ⟨[], rfl, .inl rfl⟩

/-- A text without a colon is no field. -/
theorem pairsOf_eq_none {cs : List Char} (h : ':' ∉ cs) : pairsOf cs = none := by
  rcases splitOn_eq_cons '|' cs with ⟨rest, hrest⟩
  have hpiece : ':' ∉ cs.takeWhile (· ≠ '|') :=
    fun hmem => h ((List.takeWhile_prefix _).subset hmem)
  rw [pairsOf, hrest, List.map_cons, List.mapM_cons, fieldAndValue_eq_none hpiece]
  rfl

theorem pairsOf_plain {name : List Char} {s : String} (hname : '|' ∉ name ∧ ':' ∉ name)
    (h : Plain s) :
    pairsOf (name ++ ':' :: s.toList) =
      some [(String.ofList name, String.ofList (decodeDelimiters s.toList))] := by
  rw [pairsOf_field hname h.1, takeWhile_of_notMem h.2.1]

theorem notMem_toString_int {z : Int} {c : Char} (hdigit : c.isDigit = false) (hne : c ≠ '-') :
    c ∉ (toString z).toList := by
  intro h
  rcases mem_toString_int h with h | h
  · rw [hdigit] at h
    cases h
  · exact hne h

theorem plain_toString_int (z : Int) : Plain (toString z) :=
  ⟨notMem_toString_int (by decide) (by decide), notMem_toString_int (by decide) (by decide),
    notMem_toString_int (by decide) (by decide)⟩

theorem filter_null {cs : List Char} (h : '\x00' ∉ cs) :
    cs.filter (fun c => !decide (c = '\x00')) = cs := by
  rw [List.filter_eq_self]
  intro c hc
  simp only [Bool.not_eq_true', decide_eq_false_iff_not]
  rintro rfl
  exact h hc

theorem toList_gossiped {e : Envelope} (he : e.IsPlain) {cs : List Char} (hnull : '\x00' ∉ cs) :
    (gossiped e (String.ofList cs)).toList =
      cs ++ '|' :: ("msgid".toList ++ ':' :: e.msgid.toList) ++
        '|' :: ("k".toList ++ ':' :: e.k.toList) ++
        '|' :: ("tm".toList ++ ':' :: (toString e.now).toList) ++
        '|' :: ("nonce".toList ++ ':' :: e.nonce.toList) := by
  have hnow := filter_null (plain_toString_int e.now).2.2
  rw [Int.toString_eq_repr] at hnow
  simp [gossiped, removeNullTerminators, filter_null hnull, filter_null he.msgid.2.2,
    filter_null he.k.2.2, hnow]

/-- The fields of the envelope. -/
def Envelope.fields (e : Envelope) : List (String × String) :=
  [("msgid", String.ofList (decodeDelimiters e.msgid.toList)),
    ("k", String.ofList (decodeDelimiters e.k.toList)), ("tm", toString e.now),
    ("nonce", String.ofList (decodeDelimiters e.nonce.toList))]

theorem Envelope.lookup_fields_k (e : Envelope) :
    e.fields.lookup "k" = some (String.ofList (decodeDelimiters e.k.toList)) := by
  simp [fields, List.lookup_cons]

theorem Envelope.lookup_fields_tm (e : Envelope) :
    e.fields.lookup "tm" = some (toString e.now) := by
  simp [fields, List.lookup_cons]

theorem Envelope.lookup_fields {name : String} (h : name ∉ ["msgid", "k", "tm", "nonce"])
    (e : Envelope) : e.fields.lookup name = none := by
  simp only [List.mem_cons, List.not_mem_nil, or_false, not_or, ← beq_eq_false_iff_ne] at h
  simp only [fields, List.lookup_cons, h, List.lookup_nil]

/-- The fields of a message: those of its text, and those of the envelope behind them. -/
theorem pairs_gossiped {e : Envelope} (he : e.IsPlain) {cs : List Char} (hnull : '\x00' ∉ cs) :
    (split '|' (gossiped e (String.ofList cs))).mapM fieldAndValue =
      (pairsOf cs).map fun pairs => pairs ++ e.fields := by
  have hsplit : (split '|' (gossiped e (String.ofList cs))).mapM fieldAndValue =
      pairsOf (gossiped e (String.ofList cs)).toList := rfl
  have hnow : String.ofList (decodeDelimiters (toString e.now).toList) = toString e.now := by
    rw [(decodeDelimiters_eq_self_iff _).mpr
      (decoded_of_notMem (notMem_toString_int (by decide) (by decide)))]
    exact String.ofList_toList
  rw [hsplit, toList_gossiped he hnull, pairsOf_append, pairsOf_append, pairsOf_append,
    pairsOf_append, pairsOf_plain (by decide) he.msgid, pairsOf_plain (by decide) he.k,
    pairsOf_plain (by decide) (plain_toString_int e.now), pairsOf_plain (by decide) he.nonce, hnow]
  cases pairsOf cs <;> simp [Envelope.fields]

end Gossiped

end DecentralizedCloud

import DecentralizedCloud.Common.CommandType
import DecentralizedCloud.Common.Message

/-!
# Gossiped fields

`gossip` writes the fields of a message behind the number of its command, with the two
delimiters of a value in place of which stand their codes. No value can therefore add,
drop or cut off a field: the receiver finds the fields that were passed, each with what
has become of its own value, and those of the envelope (`fields_unforged`).

What has become of a value is the value itself only where no code of a delimiter and no
null character stands in it: `%` is not encoded, and null characters are removed
(`round_trips_iff`).
-/

namespace DecentralizedCloud

/-! ## Writing a message -/

/-- `boost::replace_all` of a single character. -/
def replaceChar (c : Char) (code : List Char) (cs : List Char) : List Char :=
  cs.flatMap fun x => if x = c then code else [x]

/-- The codes of the delimiters in place of them. -/
def encodeDelimiters (value : List Char) : List Char :=
  replaceChar '|' ['%', '7', 'C'] (replaceChar ':' ['%', '3', 'A'] value)

/-- A name that `gossip` refuses. -/
def isReserved (key : String) : Bool := key = "msgid" || key = "k" || key = "c" || key = "chanid"

/-- The text of a message; `none` when a name is reserved. The fields come in the order in
which the loop walks through the map. -/
def gossipText (cmd : CommandType) (kv : FieldValueMap) : Option String :=
  kv.foldlM (fun msg field =>
    if isReserved field.1 then none
    else some (msg ++ "|" ++ field.1 ++ ":" ++
      String.ofList (encodeDelimiters field.2.toList))) ("c:" ++ toString cmd.code)

/-- What a node makes up for a message: an id of small letters, its own id, the time, and a
number. -/
structure Envelope.IsGenerated (e : Envelope) : Prop where
  msgid : ∀ c ∈ e.msgid.toList, c.isLower
  k : ∀ c ∈ e.k.toList, c.isDigit ∨ c.isLower
  nonce : ∀ c ∈ e.nonce.toList, c.isDigit
  now : -(2 ^ 63) ≤ e.now ∧ e.now < 2 ^ 63

/-- What has become of a text when it arrives. -/
def withoutNull (cs : List Char) : List Char := cs.filter (· ≠ '\x00')

/-- What the receiver reads of a value. -/
def receivedValue (value : String) : String :=
  String.ofList (decodeDelimiters (withoutNull (encodeDelimiters value.toList)))

/-! ## Encoding and decoding -/

section Encode

variable {a b c new : Char}

@[simp] theorem replaceChar_nil (code : List Char) : replaceChar c code [] = [] := rfl

theorem replaceChar_append (code xs ys : List Char) :
    replaceChar c code (xs ++ ys) = replaceChar c code xs ++ replaceChar c code ys :=
  List.flatMap_append

theorem replaceChar_of_notMem {xs : List Char} (h : c ∉ xs) (code : List Char) :
    replaceChar c code xs = xs := by
  induction xs with
  | nil => rfl
  | cons x xs ih =>
      rw [List.mem_cons, not_or] at h
      have hx : (if x = c then code else [x]) = [x] := if_neg fun heq => h.1 heq.symm
      rw [replaceChar, List.flatMap_cons, hx]
      exact congrArg (x :: ·) (ih h.2)

/-- At the first occurrence. -/
theorem replaceChar_append_cons {xs : List Char} (h : c ∉ xs) (code ys : List Char) :
    replaceChar c code (xs ++ c :: ys) = xs ++ code ++ replaceChar c code ys := by
  rw [replaceChar_append, replaceChar_of_notMem h, List.append_assoc]
  congr 1
  rw [replaceChar, List.flatMap_cons, if_pos rfl]
  rfl

theorem mem_replaceChar {x : Char} {code xs : List Char} (h : x ∈ replaceChar c code xs) :
    x ∈ code ∨ x ∈ xs ∧ x ≠ c := by
  rcases List.mem_flatMap.mp h with ⟨y, hy, hx⟩
  split at hx
  case isTrue => exact .inl hx
  case isFalse hne =>
      rw [List.mem_singleton.mp hx]
      exact .inr ⟨hy, hne⟩

/-- No replacement starts before the first character of the text that is replaced and ends
behind it. -/
theorem replaceAll_append_start (hb : a ≠ b) (hc : a ≠ c) (xs ys : List Char) :
    replaceAll a b c new (xs ++ a :: ys) =
      replaceAll a b c new xs ++ replaceAll a b c new (a :: ys) := by
  fun_induction replaceAll a b c new xs with
  | case1 x y z rest h ih =>
      simp only [List.cons_append] at ih ⊢
      rw [replaceAll, if_pos h, ih]
  | case2 x y z rest h ih =>
      simp only [List.cons_append] at ih ⊢
      rw [replaceAll, if_neg h, ih]
  | case3 rest hrest =>
      rcases rest with _ | ⟨x, _ | ⟨y, _ | ⟨z, rest⟩⟩⟩
      · rfl
      · have hx : ¬ [a, b, c] <+: x :: a :: ys := by
          simp [List.cons_prefix_cons, hb.symm]
        rw [List.singleton_append, replaceAll_cons hx, List.singleton_append]
      · have hx : ¬ [a, b, c] <+: x :: y :: a :: ys := by
          simp [List.cons_prefix_cons, hc.symm]
        have hy : ¬ [a, b, c] <+: y :: a :: ys := by
          simp [List.cons_prefix_cons, hb.symm]
        rw [List.cons_append, List.singleton_append, replaceAll_cons hx, replaceAll_cons hy]
        rfl
      · exact absurd rfl (hrest x y z rest)

/-- Decoding undoes encoding, and decodes the codes that were there before as well. -/
theorem replaceAll_replaceChar (hb : a ≠ b) (hc : a ≠ c) (hnew : new ∉ [a, b, c])
    (xs : List Char) :
    replaceAll a b c new (replaceChar new [a, b, c] xs) = replaceAll a b c new xs := by
  simp only [List.mem_cons, List.not_mem_nil, or_false, not_or] at hnew
  induction hn : xs.length using Nat.strong_induction_on generalizing xs with
  | h n ih =>
      by_cases hmem : new ∈ xs
      · rcases List.eq_append_cons_of_mem hmem with ⟨piece, rest, rfl, hpiece⟩
        have hlt : rest.length < n := by
          simp only [List.length_append, List.length_cons] at hn
          omega
        have hcode : ∀ ys, replaceAll a b c new (a :: b :: c :: ys) =
            new :: replaceAll a b c new ys := fun ys => by rw [replaceAll, if_pos ⟨rfl, rfl, rfl⟩]
        rw [replaceChar_append_cons hpiece, replaceAll_append hnew.1 hnew.2.1 hnew.2.2,
          List.append_assoc]
        show replaceAll a b c new (piece ++ a :: b :: c :: replaceChar new [a, b, c] rest) = _
        rw [replaceAll_append_start hb hc, hcode, ih _ hlt rest rfl]
      · rw [replaceChar_of_notMem hmem]

/-- The code of the one delimiter is left alone where that of the other is decoded. -/
theorem replaceAll_colon_replaceChar_bar (xs : List Char) :
    replaceAll '%' '3' 'A' ':' (replaceChar '|' ['%', '7', 'C'] xs) =
      replaceChar '|' ['%', '7', 'C'] (replaceAll '%' '3' 'A' ':' xs) := by
  induction hn : xs.length using Nat.strong_induction_on generalizing xs with
  | h n ih =>
      have hkeep : ∀ {piece : List Char}, '|' ∉ piece →
          '|' ∉ replaceAll '%' '3' 'A' ':' piece := by
        intro piece hpiece hmem
        rcases mem_replaceAll hmem with hmem | hmem
        · exact hpiece hmem
        · exact absurd hmem (by decide)
      -- the induction goes from one bar to the next
      by_cases hmem : '|' ∈ xs
      · rcases List.eq_append_cons_of_mem hmem with ⟨piece, rest, rfl, hpiece⟩
        have hlt : rest.length < n := by
          simp only [List.length_append, List.length_cons] at hn
          omega
        have hcode : ∀ ys, replaceAll '%' '3' 'A' ':' ('%' :: '7' :: 'C' :: ys) =
            '%' :: '7' :: 'C' :: replaceAll '%' '3' 'A' ':' ys := by
          intro ys
          rw [replaceAll_cons (by simp [List.cons_prefix_cons]),
            replaceAll_cons (by simp [List.cons_prefix_cons]),
            replaceAll_cons (by simp [List.cons_prefix_cons])]
        rw [replaceChar_append_cons hpiece, replaceAll_append (by decide) (by decide) (by decide),
          replaceChar_append_cons (hkeep hpiece), List.append_assoc, List.append_assoc]
        show replaceAll '%' '3' 'A' ':' (piece ++ '%' :: '7' :: 'C' ::
          replaceChar '|' ['%', '7', 'C'] rest) = _
        rw [replaceAll_append_start (by decide) (by decide), hcode, ih _ hlt rest rfl]
        rfl
      · rw [replaceChar_of_notMem hmem, replaceChar_of_notMem (hkeep hmem)]

/-- A value is decoded as if it had not been encoded. -/
theorem decodeDelimiters_encodeDelimiters (value : List Char) :
    decodeDelimiters (encodeDelimiters value) = decodeDelimiters value := by
  unfold decodeDelimiters encodeDelimiters
  rw [replaceAll_colon_replaceChar_bar,
    replaceAll_replaceChar (by decide) (by decide) (by decide),
    replaceAll_replaceChar (by decide) (by decide) (by decide)]

/-- NUL can be removed before or after a character is replaced. -/
theorem withoutNull_replaceChar {c : Char} (hc : c ≠ '\x00') {code : List Char}
    (hcode : '\x00' ∉ code) (xs : List Char) :
    withoutNull (replaceChar c code xs) = replaceChar c code (withoutNull xs) := by
  have hself : withoutNull code = code := by
    rw [withoutNull, List.filter_eq_self]
    intro x hx
    rw [decide_eq_true_eq]
    rintro rfl
    exact hcode hx
  induction xs with
  | nil => rfl
  | cons x xs ih =>
      unfold withoutNull at hself ih ⊢
      unfold replaceChar at ih ⊢
      rw [List.flatMap_cons, List.filter_append, ih]
      by_cases hx : x = c
      · subst hx
        simp only [if_true, hself]
        rw [List.filter_cons_of_pos (by simpa using hc), List.flatMap_cons, if_pos rfl]
      · by_cases hnull : x = '\x00'
        · simp [hnull, hc.symm]
        · simp [hx, hnull]

theorem withoutNull_encodeDelimiters (value : List Char) :
    withoutNull (encodeDelimiters value) = encodeDelimiters (withoutNull value) := by
  unfold encodeDelimiters
  rw [withoutNull_replaceChar (by decide) (by decide),
    withoutNull_replaceChar (by decide) (by decide)]

/-- No delimiter is left in an encoded value. -/
theorem notMem_encodeDelimiters (value : List Char) :
    '|' ∉ encodeDelimiters value ∧ ':' ∉ encodeDelimiters value := by
  constructor
  · intro h
    rcases mem_replaceChar h with h | h
    · exact absurd h (by decide)
    · exact h.2 rfl
  · intro h
    rcases mem_replaceChar h with h | h
    · exact absurd h (by decide)
    · rcases mem_replaceChar h.1 with h | h
      · exact absurd h (by decide)
      · exact h.2 rfl

theorem notMem_withoutNull (cs : List Char) : '\x00' ∉ withoutNull cs := by
  intro h
  simpa using (List.mem_filter.mp h).2

theorem receivedValue_eq (value : String) :
    receivedValue value = String.ofList (decodeDelimiters (withoutNull value.toList)) := by
  rw [receivedValue, withoutNull_encodeDelimiters, decodeDelimiters_encodeDelimiters]

theorem withoutNull_eq_self {cs : List Char} (h : '\x00' ∉ cs) : withoutNull cs = cs := by
  rw [withoutNull, List.filter_eq_self]
  intro c hc
  rw [decide_eq_true_eq]
  rintro rfl
  exact h hc

/-- A value arrives as it is when no null character and no code of a delimiter is in it. -/
theorem receivedValue_eq_self_iff (value : String) :
    receivedValue value = value ↔ '\x00' ∉ value.toList ∧ Decoded value.toList := by
  rw [receivedValue_eq, ← String.toList_inj, String.toList_ofList]
  by_cases hnull : '\x00' ∈ value.toList
  · -- what is removed makes the text shorter
    have hlt : (withoutNull value.toList).length < value.toList.length := by
      rw [withoutNull, List.length_filter_lt_length_iff_exists]
      exact ⟨'\x00', hnull, by simp⟩
    have hle := length_decodeDelimiters_le (withoutNull value.toList)
    simp only [hnull, not_true_eq_false, false_and, iff_false]
    intro heq
    rw [heq] at hle
    omega
  · rw [withoutNull_eq_self hnull, decodeDelimiters_eq_self_iff]
    simp [hnull]

end Encode

/-! ## Reading a message -/

section Fields

variable {e : Envelope} {cmd : CommandType} {kv : FieldValueMap}

/-- A name that can be told from the delimiters. -/
def DelimiterFree (key : String) : Prop := '|' ∉ key.toList ∧ ':' ∉ key.toList

instance (key : String) : Decidable (DelimiterFree key) :=
  inferInstanceAs (Decidable ('|' ∉ key.toList ∧ ':' ∉ key.toList))

theorem Envelope.IsGenerated.isPlain (he : e.IsGenerated) : e.IsPlain where
  msgid := ⟨fun h => absurd (he.msgid _ h) (by decide), fun h => absurd (he.msgid _ h) (by decide),
    fun h => absurd (he.msgid _ h) (by decide)⟩
  k := ⟨fun h => absurd (he.k _ h) (by decide), fun h => absurd (he.k _ h) (by decide),
    fun h => absurd (he.k _ h) (by decide)⟩
  nonce := ⟨fun h => absurd (he.nonce _ h) (by decide), fun h => absurd (he.nonce _ h) (by decide),
    fun h => absurd (he.nonce _ h) (by decide)⟩
  now := he.now

theorem decodeDelimiters_of_notMem {s : String} (h : '%' ∉ s.toList) :
    String.ofList (decodeDelimiters s.toList) = s := by
  rw [(decodeDelimiters_eq_self_iff _).mpr (decoded_of_notMem h), String.ofList_toList]

theorem Envelope.IsGenerated.fields_eq (he : e.IsGenerated) :
    e.fields = [("msgid", e.msgid), ("k", e.k), ("tm", toString e.now), ("nonce", e.nonce)] := by
  have hmsgid := decodeDelimiters_of_notMem fun h => absurd (he.msgid '%' h) (by decide)
  have hk := decodeDelimiters_of_notMem fun h => absurd (he.k '%' h) (by decide)
  have hnonce := decodeDelimiters_of_notMem fun h => absurd (he.nonce '%' h) (by decide)
  rw [Envelope.fields, hmsgid, hk, hnonce]

/-- A field as it arrives, behind its delimiter. -/
def fieldText (field : String × String) : List Char :=
  '|' :: (withoutNull field.1.toList ++ ':' :: withoutNull (encodeDelimiters field.2.toList))

theorem withoutNull_append (xs ys : List Char) :
    withoutNull (xs ++ ys) = withoutNull xs ++ withoutNull ys := List.filter_append ..

/-- The text of a message without its null characters. -/
theorem gossipText_eq (cmd : CommandType) (hkv : ∀ field ∈ kv, isReserved field.1 = false) :
    ∃ msg, gossipText cmd kv = some msg ∧ withoutNull msg.toList =
      "c".toList ++ ':' :: (toString cmd.code).toList ++ kv.flatMap fieldText := by
  -- the fields are added one by one to any text
  have hfold : ∀ msg₀ : String, ∃ msg, kv.foldlM (fun msg field =>
      if isReserved field.1 then none
      else some (msg ++ "|" ++ field.1 ++ ":" ++
        String.ofList (encodeDelimiters field.2.toList))) msg₀ = some msg ∧
      withoutNull msg.toList = withoutNull msg₀.toList ++ kv.flatMap fieldText := by
    induction kv with
    | nil => exact fun msg₀ => ⟨msg₀, rfl, by simp⟩
    | cons field kv ih =>
        intro msg₀
        have hfield := hkv field List.mem_cons_self
        rcases ih (fun field' h => hkv field' (List.mem_cons_of_mem field h))
          (msg₀ ++ "|" ++ field.1 ++ ":" ++ String.ofList (encodeDelimiters field.2.toList)) with
          ⟨msg, hmsg, htext⟩
        refine ⟨msg, ?_, ?_⟩
        · rw [List.foldlM_cons, hfield]
          exact hmsg
        · have hdelimiters : withoutNull "|".toList = ['|'] ∧ withoutNull ":".toList = [':'] := by
            decide
          rw [htext]
          simp only [String.toList_append, String.toList_ofList, withoutNull_append, hdelimiters.1,
            hdelimiters.2, fieldText, List.flatMap_cons, List.append_assoc, List.cons_append,
            List.nil_append]
  have hhead : withoutNull ("c:" ++ toString cmd.code).toList =
      "c".toList ++ ':' :: (toString cmd.code).toList := by
    cases cmd <;> decide
  rcases hfold ("c:" ++ toString cmd.code) with ⟨msg, hmsg, htext⟩
  exact ⟨msg, hmsg, by rw [htext, hhead]⟩

theorem gossiped_withoutNull (e : Envelope) (msg : String) :
    gossiped e (String.ofList (withoutNull msg.toList)) = gossiped e msg := by
  simp [gossiped, removeNullTerminators, withoutNull]

/-- The fields behind a text are read as they are passed. -/
theorem pairsOf_append_fields (hkv : ∀ field ∈ kv, DelimiterFree field.1) (cs : List Char) :
    pairsOf (cs ++ kv.flatMap fieldText) = (pairsOf cs).map (· ++ kv.map fun field =>
      (String.ofList (withoutNull field.1.toList), receivedValue field.2)) := by
  induction kv generalizing cs with
  | nil => simp
  | cons field kv ih =>
      have hname : ∀ {c : Char}, c ∉ field.1.toList → c ∉ withoutNull field.1.toList :=
        fun hc hmem => hc (List.mem_filter.mp hmem).1
      have hvalue : ∀ {c : Char}, c ∉ encodeDelimiters field.2.toList →
          c ∉ withoutNull (encodeDelimiters field.2.toList) :=
        fun hc hmem => hc (List.mem_filter.mp hmem).1
      have hfree := hkv field List.mem_cons_self
      have hencoded := notMem_encodeDelimiters field.2.toList
      have hfield : pairsOf (withoutNull field.1.toList ++ ':' ::
          withoutNull (encodeDelimiters field.2.toList)) =
            some [(String.ofList (withoutNull field.1.toList), receivedValue field.2)] := by
        rw [pairsOf_field ⟨hname hfree.1, hname hfree.2⟩ (hvalue hencoded.1),
          takeWhile_of_notMem (hvalue hencoded.2)]
        rfl
      rw [List.flatMap_cons, ← List.append_assoc,
        ih fun field' h => hkv field' (List.mem_cons_of_mem field h), fieldText, pairsOf_append,
        hfield]
      cases pairsOf cs <;> simp

/-- What the receiver reads: the number of the command, the fields, and the envelope. -/
theorem getFieldsAndValues_gossiped (cmd : CommandType) (he : e.IsGenerated)
    (hreserved : ∀ field ∈ kv, isReserved field.1 = false)
    (hkv : ∀ field ∈ kv, DelimiterFree field.1) :
    ∃ msg f, gossipText cmd kv = some msg ∧ getFieldsAndValues (gossiped e msg) = some f ∧
      ∀ name, f.at? name = ((("c", toString cmd.code) :: kv.map fun field =>
        (String.ofList (withoutNull field.1.toList), receivedValue field.2)) ++
          e.fields).lookup name := by
  obtain ⟨msg, hmsg, htext⟩ := gossipText_eq cmd hreserved
  have hcode : pairsOf ("c".toList ++ ':' :: (toString cmd.code).toList) =
      some [("c", toString cmd.code)] := by
    cases cmd <;> decide
  have hpairs := pairs_gossiped he.isPlain (notMem_withoutNull msg.toList)
  rw [gossiped_withoutNull, htext, pairsOf_append_fields hkv, hcode, Option.map_some,
    Option.map_some] at hpairs
  rcases at?_getFieldsAndValues hpairs with ⟨f, hf, hat⟩
  exact ⟨msg, f, hmsg, hf, hat⟩

/-- The names that `gossip`, its callers or the receiver add. -/
def addedNames : List String := ["c", "msgid", "k", "chanid", "tm", "nonce"]

/-- A name that a caller may choose. -/
structure OwnName (key : String) : Prop where
  ne_empty : key ≠ ""
  delimiterFree : DelimiterFree key
  null : '\x00' ∉ key.toList
  notAdded : key ∉ addedNames

theorem OwnName.not_reserved {key : String} (h : OwnName key) : isReserved key = false := by
  have hadded := h.notAdded
  simp only [addedNames, List.mem_cons, List.not_mem_nil, or_false, not_or] at hadded
  simp [isReserved, hadded]

/-- The receiver has read the fields that were passed, and nothing else but those that the
sender and the receiver add. -/
structure ReadsFields (e : Envelope) (cmd : CommandType) (kv f : FieldValueMap) : Prop where
  c : f.at? "c" = some (toString cmd.code)
  msgid : f.at? "msgid" = some e.msgid
  k : f.at? "k" = some e.k
  tm : f.at? "tm" = some (toString e.now)
  nonce : f.at? "nonce" = some e.nonce
  /-- a value is read of its own value alone -/
  others : ∀ name ∉ ["c", "msgid", "k", "tm", "nonce"],
    f.at? name = (kv.at? name).map receivedValue

/-- The received fields, under names without null characters. -/
theorem lookup_received (hnull : ∀ field ∈ kv, '\x00' ∉ field.1.toList) (name : String) :
    (kv.map fun field => (String.ofList (withoutNull field.1.toList),
      receivedValue field.2)).lookup name = (kv.at? name).map receivedValue := by
  induction kv with
  | nil => rfl
  | cons field kv ih =>
      rcases field with ⟨key, value⟩
      have hkey : String.ofList (withoutNull key.toList) = key := by
        rw [withoutNull_eq_self (hnull _ List.mem_cons_self), String.ofList_toList]
      rw [FieldValueMap.at?] at ih ⊢
      rw [List.map_cons, hkey, List.lookup_cons, List.lookup_cons,
        ih fun field' h => hnull field' (List.mem_cons_of_mem _ h)]
      cases name == key <;> rfl

/-- Whatever the values are, none of them makes, hides or changes another field. -/
theorem fields_unforged (he : e.IsGenerated) (cmd : CommandType)
    (hkv : ∀ field ∈ kv, OwnName field.1) :
    ∃ msg f, gossipText cmd kv = some msg ∧ getFieldsAndValues (gossiped e msg) = some f ∧
      ReadsFields e cmd kv f := by
  obtain ⟨msg, f, hmsg, hf, hat⟩ := getFieldsAndValues_gossiped cmd he
    (fun field h => (hkv field h).not_reserved) fun field h => (hkv field h).delimiterFree
  refine ⟨msg, f, hmsg, hf, ?_⟩
  have hlookup : ∀ name, f.at? name = if name = "c" then some (toString cmd.code)
      else ((kv.at? name).map receivedValue).or (e.fields.lookup name) := by
    intro name
    rw [hat, List.cons_append, List.lookup_cons, List.lookup_append,
      lookup_received fun field h => (hkv field h).null]
    by_cases hc : name = "c"
    · simp [hc]
    · have hne : (name == "c") = false := by simpa using hc
      rw [hne, if_neg hc]
  -- no field of the command has a name that is added
  have hadded : ∀ name ∈ addedNames, kv.at? name = none := by
    intro name hname
    rw [FieldValueMap.at?, List.lookup_eq_none_iff]
    intro field hfield
    simp only [bne_iff_ne, ne_eq]
    rintro rfl
    exact (hkv field hfield).notAdded hname
  rw [he.fields_eq] at hlookup
  constructor
  case c => rw [hlookup, if_pos rfl]
  case msgid => simp [hlookup, hadded "msgid" (by decide)]
  case k => simp [hlookup, hadded "k" (by decide), List.lookup_cons]
  case tm => simp [hlookup, hadded "tm" (by decide), List.lookup_cons]
  case nonce => simp [hlookup, hadded "nonce" (by decide), List.lookup_cons]
  -- a name that the envelope does not have
  case others =>
      intro name hname
      simp only [List.mem_cons, List.not_mem_nil, or_false, not_or, ← beq_eq_false_iff_ne]
        at hname
      have hc : name ≠ "c" := by simpa using hname.1
      rw [hlookup, if_neg hc]
      simp only [List.lookup_cons, hname, List.lookup_nil, Option.or_none]

/-- Every value is received as it was passed. -/
def RoundTrips (kv f : FieldValueMap) : Prop :=
  ∀ key value, kv.at? key = some value → f.at? key = some value

/-- No null character stands in a field, and no code of a delimiter in a value. -/
def Unescaped (kv : FieldValueMap) : Prop :=
  ∀ key value, kv.at? key = some value →
    '\x00' ∉ key.toList ∧ '\x00' ∉ value.toList ∧ Decoded value.toList

/-- A name under which something is read has no NUL. -/
theorem notMem_null_of_read (he : e.IsGenerated) {f : FieldValueMap}
    (hat : ∀ name, f.at? name = ((("c", toString cmd.code) :: kv.map fun field =>
      (String.ofList (withoutNull field.1.toList), receivedValue field.2)) ++
        e.fields).lookup name) {name value : String} (h : f.at? name = some value) :
    '\x00' ∉ name.toList := by
  rw [hat] at h
  have hmem : name ∈ ((("c", toString cmd.code) :: kv.map fun field =>
      (String.ofList (withoutNull field.1.toList), receivedValue field.2)) ++ e.fields).map
        Prod.fst := by
    -- a name that is read is one of the pairs
    by_contra hnot
    have hnone : List.lookup name ((("c", toString cmd.code) :: kv.map fun field =>
        (String.ofList (withoutNull field.1.toList), receivedValue field.2)) ++ e.fields) =
          none := by
      rw [List.lookup_eq_none_iff]
      intro field hfield
      simp only [bne_iff_ne, ne_eq]
      rintro rfl
      exact hnot (List.mem_map_of_mem hfield)
    rw [hnone] at h
    cases h
  rw [he.fields_eq] at hmem
  simp only [List.map_append, List.map_cons, List.map_map, List.map_nil, List.mem_append,
    List.mem_cons, List.mem_map, List.not_mem_nil, or_false] at hmem
  -- the names of the command arrive without null characters, and the others have none
  rcases hmem with (rfl | ⟨field, -, rfl⟩) | rfl | rfl | rfl | rfl
  · decide
  · rw [Function.comp_apply, String.toList_ofList]
    exact notMem_withoutNull _
  all_goals decide

/-- The fields of a message are received as they were passed if and only if no null character
and no code of a delimiter stands in them. -/
theorem round_trips_iff (he : e.IsGenerated) (cmd : CommandType)
    (hkv : ∀ field ∈ kv, DelimiterFree field.1 ∧ isReserved field.1 = false) :
    ∃ msg f, gossipText cmd kv = some msg ∧ getFieldsAndValues (gossiped e msg) = some f ∧
      (RoundTrips kv f ↔ Unescaped kv) := by
  obtain ⟨msg, f, hmsg, hf, hat⟩ := getFieldsAndValues_gossiped cmd he
    (fun field h => (hkv field h).2) fun field h => (hkv field h).1
  refine ⟨msg, f, hmsg, hf, ?_⟩
  -- without null characters in the names, a field is read under its own name
  have hread : (∀ field ∈ kv, '\x00' ∉ field.1.toList) → ∀ key value,
      kv.at? key = some value → f.at? key = some (receivedValue value) := by
    intro hnull key value hkey
    have hc : (key == "c") = false := by
      rw [beq_eq_false_iff_ne]
      rintro rfl
      have hnot : isReserved "c" = false := (hkv _ (FieldValueMap.mem_of_at? hkey)).2
      exact absurd hnot (by decide)
    rw [hat, List.cons_append, List.lookup_cons, hc, List.lookup_append, lookup_received hnull,
      hkey]
    rfl
  constructor
  · intro hround
    have hnull : ∀ field ∈ kv, '\x00' ∉ field.1.toList := by
      intro field hfield
      rcases FieldValueMap.exists_at?_of_mem hfield with ⟨value, hvalue⟩
      exact notMem_null_of_read he hat (hround _ _ hvalue)
    intro key value hkey
    have heq := (hread hnull key value hkey).symm.trans (hround key value hkey)
    exact ⟨hnull _ (FieldValueMap.mem_of_at? hkey),
      (receivedValue_eq_self_iff value).mp (Option.some.inj heq)⟩
  · intro hclean key value hkey
    have hnull : ∀ field ∈ kv, '\x00' ∉ field.1.toList := by
      intro field hfield
      rcases FieldValueMap.exists_at?_of_mem hfield with ⟨value', hvalue⟩
      exact (hclean _ _ hvalue).1
    rw [hread hnull key value hkey, (receivedValue_eq_self_iff value).mpr (hclean key value hkey).2]

end Fields

namespace Sample

def envelope : Envelope where
  msgid := "abc"
  k := "4f"
  now := 100
  nonce := "12"

theorem envelope_isGenerated : envelope.IsGenerated where
  msgid := by decide
  k := by decide
  nonce := by decide
  now := by decide

end Sample

/-- A value with delimiters and with the text of another field in it. -/
theorem fields_unforged_delimiters :
    ∃ msg f, gossipText .exeFunction [("i", "a|k:b")] = some msg ∧
      getFieldsAndValues (gossiped Sample.envelope msg) = some f ∧
      ReadsFields Sample.envelope .exeFunction [("i", "a|k:b")] f := by
  apply fields_unforged Sample.envelope_isGenerated
  intro field hfield
  rw [List.mem_singleton.mp hfield]
  exact ⟨by decide, by decide, by decide, by decide⟩

theorem round_trips_iff_percent :
    ∃ msg f, gossipText .exeFunction [("i", "100%|:")] = some msg ∧
      getFieldsAndValues (gossiped Sample.envelope msg) = some f ∧
      (RoundTrips [("i", "100%|:")] f ↔ Unescaped [("i", "100%|:")]) := by
  apply round_trips_iff Sample.envelope_isGenerated
  intro field hfield
  rw [List.mem_singleton.mp hfield]
  decide

/-- The text `%3A` arrives as a colon. -/
theorem code_decoded :
    ∃ msg f, gossipText .exeFunction [("i", "%3A")] = some msg ∧
      getFieldsAndValues (gossiped Sample.envelope msg) = some f ∧ f.at? "i" = some ":" ∧
      ¬RoundTrips [("i", "%3A")] f := by
  refine ⟨_, _, rfl, rfl, by decide, ?_⟩
  intro hround
  have hsame := hround "i" "%3A" rfl
  revert hsame
  decide

end DecentralizedCloud

import DecentralizedCloud.Common.JsonText
import DecentralizedCloud.Compute.CommandBuilder

/-!
# The message of a run's state changes

The script's texts hold no escapes, and the storage node takes the message apart at
`|`, then at `:`, then at `,` and at last at a space. A single command gets through when
its row filter has no `||`, whose symbol is the delimiter of fields. A second command
never does: `execute` puts `,cmds:` in front of it, so that the value of the field ends
in the middle of this text, and a POST also drops what has been collected so far
(`commands_arrive_iff`).
-/

namespace DecentralizedCloud.Compute

open Storage StateQueue

variable (E : Engine)

/-! ## What the calls consist of -/

def Alphanumeric (s : String) : Prop := ∀ c ∈ s.toList, c.isAlphanum

/-- The alphabet of base64. -/
def Base64 (s : String) : Prop := ∀ c ∈ s.toList, c.isAlphanum ∨ c ∈ ['+', '/', '=']

def comparisons : List String := ["==", "!=", "<", "<=", ">", ">="]

/-- An entry whose attribute and value consist of letters and digits. -/
structure FilterEntry.IsAlphanumeric (current : FilterEntry) : Prop where
  logicaloperator : ∀ s ∈ current.logicaloperator, s = "&&" ∨ s = "||"
  expressionbegin : ∀ s ∈ current.expressionbegin, ∀ c ∈ s.toList, c = '('
  attributeName : ∀ s ∈ current.attributeName, Alphanumeric s
  operator : ∀ s ∈ current.operator, s ∈ comparisons
  value : ∀ s ∈ current.value, Alphanumeric s
  expressionend : ∀ s ∈ current.expressionend, ∀ c ∈ s.toList, c = ')'

/-- A call that asks for a state change. -/
structure Call.ChangesState (c : Call) : Prop where
  httpMethod : c.httpMethod ∈ ["POST", "PUT", "DELETE"]
  templateId : Alphanumeric c.templateId
  rowfilter : ∀ current ∈ c.rowfilter, current.IsAlphanumeric

/-- The call has no filter, or one without `||`. -/
def Call.WithoutOr (c : Call) : Prop :=
  c.httpMethod = "POST" ∨ ∀ current ∈ c.rowfilter, current.logicaloperator ≠ some "||"

/-! ## Characters of a command -/

/-- A text that no step of the transport takes apart, except at the delimiter of fields. -/
def Word (cs : List Char) : Prop := ∀ c ∈ cs, c ∉ [':', ',', '%', ' ', '\x00']

theorem Word.append {xs ys : List Char} (hxs : Word xs) (hys : Word ys) : Word (xs ++ ys) := by
  intro c hc
  rcases List.mem_append.mp hc with hc | hc
  · exact hxs c hc
  · exact hys c hc

theorem word_of_base64 {c : Char} (h : c.isAlphanum ∨ c ∈ ['+', '/', '=']) :
    c ∉ [':', ',', '%', ' ', '\x00', '|'] := by
  intro hmem
  simp only [List.mem_cons, List.not_mem_nil, or_false] at hmem
  rcases hmem with rfl | rfl | rfl | rfl | rfl | rfl <;> exact absurd h (by decide)

theorem special_subset :
    [':', ',', '%', ' ', '\x00'] ⊆ [':', ',', '%', ' ', '\x00', '|'] := by
  decide

theorem Base64.word {s : String} (h : Base64 s) : Word s.toList := by
  intro c hc hspecial
  exact word_of_base64 (h c hc) (special_subset hspecial)

theorem Base64.notMem_bar {s : String} (h : Base64 s) : '|' ∉ s.toList :=
  fun hbar => word_of_base64 (h _ hbar) (by simp)

theorem Alphanumeric.base64 {s : String} (h : Alphanumeric s) : Base64 s :=
  fun c hc => .inl (h c hc)

/-- A text that may be missing has a property of characters when it has it where it is there. -/
theorem forall_mem_getD {P : Char → Prop} {o : Option String} (h : ∀ s ∈ o, ∀ c ∈ s.toList, P c) :
    ∀ c ∈ (o.getD "").toList, P c := by
  cases o with
  | none => simp
  | some s => exact h s rfl

section Entries

variable {current : FilterEntry} {rowfilter : List FilterEntry}

/-- The characters of an expression. -/
theorem mem_expr {c : Char} (h : c ∈ current.expr.toList) :
    c ∈ ((current.logicaloperator.map logicSymbol).getD "").toList ∨
      c ∈ (current.expressionbegin.getD "").toList ∨
      c ∈ ((current.attributeName.map inQuotes).getD "").toList ∨
      c ∈ ((current.operator.map operatorSymbol).getD "").toList ∨
      c ∈ ((current.value.map inQuotes).getD "").toList ∨
      c ∈ (current.expressionend.getD "").toList := by
  simpa [FilterEntry.expr, or_assoc] using h

theorem toList_exprOf (rowfilter : List FilterEntry) :
    (exprOf rowfilter).toList = rowfilter.flatMap fun current => current.expr.toList := by
  have hfold : ∀ expr : String,
      (rowfilter.foldl (fun expr current => expr ++ current.expr) expr).toList =
        expr.toList ++ rowfilter.flatMap fun current => current.expr.toList := by
    induction rowfilter with
    | nil => simp
    | cons current rowfilter ih =>
        intro expr
        rw [List.foldl_cons, ih, String.toList_append, List.flatMap_cons, List.append_assoc]
  exact hfold ""

theorem mem_inQuotes {s : String} {c : Char} (h : c ∈ (inQuotes s).toList) :
    c = '"' ∨ c ∈ s.toList := by
  simp only [inQuotes, String.toList_append, List.mem_append] at h
  rcases h with (h | h) | h
  · exact .inl (by simpa using h)
  · exact .inr h
  · exact .inl (by simpa using h)

theorem operatorSymbol_word : ∀ s ∈ comparisons,
    ∀ c ∈ (operatorSymbol s).toList, c ∉ [':', ',', '%', ' ', '\x00', '|'] := by
  decide

/-- What an expression consists of apart from its logical operators. -/
theorem FilterEntry.IsAlphanumeric.notMem (h : current.IsAlphanumeric) {c : Char}
    (hc : c ∈ current.expr.toList) :
    c ∉ [':', ',', '%', ' ', '\x00', '|'] ∨
      c = '|' ∧ current.logicaloperator = some "||" := by
  have hquoted : ∀ o : Option String, (∀ s ∈ o, Alphanumeric s) →
      ∀ c ∈ ((o.map inQuotes).getD "").toList, c ∉ [':', ',', '%', ' ', '\x00', '|'] := by
    intro o ho
    apply forall_mem_getD
    intro s hs c hc
    rcases Option.mem_map.mp hs with ⟨t, ht, rfl⟩
    rcases mem_inQuotes hc with rfl | hc
    · decide
    · exact word_of_base64 (.inl (ho t ht c hc))
  -- the parts of an entry, in their order: logical operator, parenthesis, attribute, operator,
  -- value and parenthesis
  rcases mem_expr hc with hc | hc | hc | hc | hc | hc
  · cases ho : current.logicaloperator with
    | none => simp [ho] at hc
    | some s =>
        rw [ho, Option.map_some, Option.getD_some] at hc
        rcases h.logicaloperator s ho with rfl | rfl
        · have hamp : c = '&' := by simpa [logicSymbol] using hc
          subst hamp
          exact .inl (by decide)
        · exact .inr ⟨by simpa [logicSymbol] using hc, rfl⟩
  · have hparen := forall_mem_getD h.expressionbegin c hc
    subst hparen
    exact .inl (by decide)
  · exact .inl (hquoted _ h.attributeName c hc)
  · have hsymbol : ∀ s ∈ current.operator.map operatorSymbol, ∀ c ∈ s.toList,
        c ∉ [':', ',', '%', ' ', '\x00', '|'] := by
      intro s hs
      rcases Option.mem_map.mp hs with ⟨t, ht, rfl⟩
      exact operatorSymbol_word t (h.operator t ht)
    exact .inl (forall_mem_getD hsymbol c hc)
  · exact .inl (hquoted _ h.value c hc)
  · have hparen := forall_mem_getD h.expressionend c hc
    subst hparen
    exact .inl (by decide)

theorem word_exprOf (h : ∀ current ∈ rowfilter, current.IsAlphanumeric) :
    Word (exprOf rowfilter).toList := by
  intro c hc hspecial
  rw [toList_exprOf] at hc
  rcases List.mem_flatMap.mp hc with ⟨current, hcurrent, hc⟩
  rcases (h current hcurrent).notMem hc with hnot | ⟨rfl, -⟩
  · exact hnot (special_subset hspecial)
  · exact absurd hspecial (by decide)

/-- The expression has the delimiter of fields exactly where an entry has `||`. -/
theorem bar_mem_exprOf_iff (h : ∀ current ∈ rowfilter, current.IsAlphanumeric) :
    '|' ∈ (exprOf rowfilter).toList ↔
      ∃ current ∈ rowfilter, current.logicaloperator = some "||" := by
  rw [toList_exprOf, List.mem_flatMap]
  constructor
  · rintro ⟨current, hcurrent, hc⟩
    rcases (h current hcurrent).notMem hc with hnot | ⟨-, hor⟩
    · exact absurd (by simp) hnot
    · exact ⟨current, hcurrent, hor⟩
  · rintro ⟨current, hcurrent, hor⟩
    refine ⟨current, hcurrent, ?_⟩
    simp [FilterEntry.expr, hor, logicSymbol]

end Entries

/-! ## The text of a call -/

/-- The words of the command with spaces in between. -/
def Call.chars (c : Call) : List Char := [' '].intercalate ((c.words E).map String.toList)

/-- The text in front of the first command. -/
def start (tenantid : String) : List Char :=
  "c:6|tid:".toList ++ tenantid.toList ++ "|cmds:".toList

section Texts

variable {E} {c : Call} {tenantid : String}

/-- The text of a command without spaces is its words. -/
theorem Call.chars_eq (c : Call) :
    c.chars E =
      if c.httpMethod = "POST" then
        if c.entityType = "template" then "1 ".toList ++ (E.encode c.jsonStr).toList
        else "2 ".toList ++ c.templateId.toList ++ " ".toList ++ (E.encode c.rowset).toList
      else if c.httpMethod = "PUT" then
        "5 ".toList ++ c.templateId.toList ++ " ".toList ++ (exprOf c.rowfilter).toList ++
          " ".toList ++ (E.encode c.rowset).toList
      else "8 ".toList ++ c.templateId.toList ++ " ".toList ++ (exprOf c.rowfilter).toList := by
  unfold Call.chars Call.words
  split_ifs <;> simp [List.intercalate]

/-- The commands after one more call: a `POST` drops those before. -/
theorem Call.toList_execute (h : c.httpMethod ∈ ["POST", "PUT", "DELETE"])
    (stateChangeCmds : String) :
    (c.execute E tenantid stateChangeCmds).1.toList =
      (if stateChangeCmds = "" then start tenantid
        else (if c.httpMethod = "POST" then [] else stateChangeCmds.toList) ++ ",cmds:".toList) ++
        c.chars E := by
  have hput : "PUT" ≠ "POST" := by decide
  have hdelete : "DELETE" ≠ "POST" ∧ "DELETE" ≠ "PUT" := by decide
  rw [chars_eq]
  simp only [List.mem_cons, List.not_mem_nil, or_false] at h
  unfold Call.execute start
  rcases h with h | h | h
  · simp only [h, if_true]
    split_ifs <;> simp only [String.toList_append, List.append_assoc, List.nil_append]
  · simp only [h, if_neg hput, if_true]
    split_ifs <;> simp only [String.toList_append, List.append_assoc]
  · simp only [h, if_neg hdelete.1, if_neg hdelete.2, if_true]
    split_ifs <;> simp only [String.toList_append, List.append_assoc]

/-- The words of a command. -/
theorem Call.mem_words {w : String} (hw : w ∈ c.words E) :
    w ∈ ["1", "2", "5", "8"] ∨ w = c.templateId ∨
      (c.httpMethod ≠ "POST" ∧ w = exprOf c.rowfilter) ∨ ∃ s, w = E.encode s := by
  unfold Call.words at hw
  split_ifs at hw <;> simp only [List.mem_cons, List.not_mem_nil, or_false] at hw
  · rcases hw with rfl | rfl
    · exact .inl (by simp)
    · exact .inr (.inr (.inr ⟨_, rfl⟩))
  · rcases hw with rfl | rfl | rfl
    · exact .inl (by simp)
    · exact .inr (.inl rfl)
    · exact .inr (.inr (.inr ⟨_, rfl⟩))
  · rcases hw with rfl | rfl | rfl | rfl
    · exact .inl (by simp)
    · exact .inr (.inl rfl)
    · exact .inr (.inr (.inl ⟨‹_›, rfl⟩))
    · exact .inr (.inr (.inr ⟨_, rfl⟩))
  · rcases hw with rfl | rfl | rfl
    · exact .inl (by simp)
    · exact .inr (.inl rfl)
    · exact .inr (.inr (.inl ⟨‹_›, rfl⟩))

theorem Call.exists_words (c : Call) : ∃ w w' ws, c.words E = w :: w' :: ws := by
  unfold Call.words
  split_ifs
  · exact ⟨_, _, _, rfl⟩
  · exact ⟨_, _, _, rfl⟩
  · exact ⟨_, _, _, rfl⟩
  · exact ⟨_, _, _, rfl⟩

theorem Call.word_words (hE : ∀ s, Base64 (E.encode s)) (h : c.ChangesState) :
    ∀ w ∈ c.words E, Word w.toList := by
  have hnumber : ∀ w ∈ ["1", "2", "5", "8"], ∀ c ∈ w.toList, c ∉ [':', ',', '%', ' ', '\x00'] := by
    decide
  intro w hw
  rcases mem_words hw with hw | rfl | ⟨-, rfl⟩ | ⟨s, rfl⟩
  · exact hnumber w hw
  · exact h.templateId.base64.word
  · exact word_exprOf h.rowfilter
  · exact (hE s).word

/-- A command is made of its words, with blanks between them. -/
theorem Call.mem_chars {d : Char} (hd : d ∈ c.chars E) : d = ' ' ∨ ∃ w ∈ c.words E, d ∈ w.toList := by
  have hmem : ∀ ws : List (List Char), d ∈ [' '].intercalate ws → d = ' ' ∨ ∃ w ∈ ws, d ∈ w := by
    intro ws
    induction ws with
    | nil => simp [List.intercalate]
    | cons w ws ih =>
        cases ws with
        | nil => exact fun h => .inr ⟨w, by simp, by simpa using h⟩
        | cons w' ws =>
            intro h
            rw [List.intercalate_cons_cons] at h
            rcases List.mem_append.mp h with h | h
            · rcases List.mem_append.mp h with h | h
              · exact .inr ⟨w, by simp, h⟩
              · exact .inl (by simpa using h)
            · rcases ih h with h | ⟨w'', hw'', h⟩
              · exact .inl h
              · exact .inr ⟨w'', List.mem_cons_of_mem _ hw'', h⟩
  rcases hmem _ hd with hd | ⟨w, hw, hd⟩
  · exact .inl hd
  · rcases List.mem_map.mp hw with ⟨s, hs, rfl⟩
    exact .inr ⟨s, hs, hd⟩

/-- Nothing but the delimiter of fields can take the text of a call apart. -/
theorem Call.ChangesState.notMem_chars (hE : ∀ s, Base64 (E.encode s)) (h : c.ChangesState) {d : Char}
    (hd : d ∈ [':', ',', '%', '\x00']) : d ∉ c.chars E := by
  intro hmem
  rcases mem_chars hmem with rfl | ⟨w, hw, hmem⟩
  · exact absurd hd (by decide)
  · have hsubset : [':', ',', '%', '\x00'] ⊆ [':', ',', '%', ' ', '\x00'] := by decide
    exact word_words hE h w hw d hmem (hsubset hd)

/-- A bar is in a command if and only if its row filter has an `||`. -/
theorem Call.ChangesState.bar_mem_chars_iff (hE : ∀ s, Base64 (E.encode s)) (h : c.ChangesState) :
    '|' ∈ c.chars E ↔ ¬ c.WithoutOr := by
  have hexpr := bar_mem_exprOf_iff h.rowfilter
  unfold WithoutOr
  constructor
  · intro hbar
    rcases mem_chars hbar with hspace | ⟨w, hw, hbar⟩
    · cases hspace
    · rcases mem_words hw with hw | rfl | ⟨hpost, rfl⟩ | ⟨s, rfl⟩
      -- the number of the command
      · have hnumber : ∀ w ∈ ["1", "2", "5", "8"], '|' ∉ w.toList := by decide
        exact absurd hbar (hnumber w hw)
      -- the template, then the expression, which a POST does not have, then the payload
      · exact absurd hbar h.templateId.base64.notMem_bar
      · rcases hexpr.mp hbar with ⟨current, hcurrent, hor⟩
        rintro (heq | hall)
        · exact hpost heq
        · exact hall current hcurrent hor
      · exact absurd hbar (hE s).notMem_bar
  · intro hor
    rw [not_or] at hor
    have hbar : '|' ∈ (exprOf c.rowfilter).toList := by
      by_contra hnot
      exact hor.2 fun current hcurrent heq => hnot (hexpr.mpr ⟨current, hcurrent, heq⟩)
    rw [chars_eq, if_neg hor.1]
    split_ifs <;> simp [hbar]

/-- A command comes apart into its words at the spaces. -/
theorem Call.ChangesState.split_chars (hE : ∀ s, Base64 (E.encode s)) (h : c.ChangesState) :
    split ' ' (String.ofList (c.chars E)) = c.words E := by
  have hword : ∀ w ∈ (c.words E).map String.toList, ' ' ∉ w := by
    intro w hw hspace
    rcases List.mem_map.mp hw with ⟨s, hs, rfl⟩
    exact word_words hE h s hs _ hspace (by simp)
  have hne : (c.words E).map String.toList ≠ [] := by
    rcases c.exists_words (E := E) with ⟨w, w', ws, hws⟩
    simp [hws]
  rw [split, String.toList_ofList, chars, List.splitOn_intercalate _ hword hne, List.map_map]
  simp

end Texts

/-! ## The text of a run -/

/-- Every colon ends a `,cmds:`. -/
def Guarded (cs : List Char) : Prop :=
  ∀ before behind, cs = before ++ ':' :: behind → ",cmds".toList <:+ before

theorem guarded_of_notMem {cs : List Char} (h : ':' ∉ cs) : Guarded cs := by
  rintro before behind rfl
  exact absurd (by simp) h

theorem Guarded.append {xs ys : List Char} (hxs : Guarded xs) (hys : Guarded ys) :
    Guarded (xs ++ ys) := by
  intro before behind h
  rcases List.append_eq_append_iff.mp h with ⟨as, rfl, hys'⟩ | ⟨bs, hxs', hbs⟩
  · exact (hys as behind hys').trans (List.suffix_append xs as)
  · rcases bs with _ | ⟨b, bs⟩
    · rw [List.append_nil] at hxs'
      subst hxs'
      have hhead := hys [] behind hbs.symm
      exact absurd hhead (by decide)
    · rw [List.cons_append, List.cons.injEq] at hbs
      rcases hbs with ⟨rfl, rfl⟩
      exact hxs before bs hxs'

/-- The field of the commands is guarded, if the commands have no colon. -/
theorem guarded_cmds {cs : List Char} (h : ':' ∉ cs) : Guarded (",cmds".toList ++ ':' :: cs) := by
  intro before behind heq
  rcases List.append_eq_append_iff.mp heq with ⟨as, rfl, has⟩ | ⟨bs, hbs, hbehind⟩
  · rcases as with _ | ⟨a, as⟩
    · rw [List.append_nil]
    · rw [List.cons_append, List.cons.injEq] at has
      rcases has with ⟨-, rfl⟩
      exact absurd (by simp) h
  · rcases bs with _ | ⟨b, bs⟩
    · rw [List.append_nil] at hbs
      rw [hbs]
    · rw [List.cons_append, List.cons.injEq] at hbehind
      rcases hbehind with ⟨rfl, -⟩
      have hcolon : ':' ∈ ",cmds".toList := by
        rw [hbs]
        simp
      exact absurd hcolon (by decide)

/-- The text behind a delimiter of fields. -/
theorem Guarded.behind_bar {before behind : List Char} (h : Guarded (before ++ '|' :: behind)) :
    Guarded behind := by
  rintro name value rfl
  have hsuffix := h (before ++ '|' :: name) value (by simp)
  have hbar : '|' ∉ ",cmds".toList := by decide
  -- the delimiter does not stand inside of `,cmds`
  rcases List.suffix_or_suffix_of_suffix hsuffix (List.suffix_append before ('|' :: name)) with
    hin | hout
  · rcases List.suffix_cons_iff.mp hin with heq | hin
    · exact absurd (by rw [heq]; simp) hbar
    · exact hin
  · exact absurd (hout.subset List.mem_cons_self) hbar

/-- The names of the fields in such a text have a comma. -/
theorem Guarded.comma_mem {cs : List Char} (h : Guarded cs) {pairs : List (String × String)}
    (hpairs : pairsOf cs = some pairs) : ∀ kv ∈ pairs, ',' ∈ kv.1.toList := by
  intro kv hkv
  rcases piece_of_mem_pairsOf hpairs hkv with ⟨piece, hpiece, hfield⟩
  rcases name_of_fieldAndValue hfield with ⟨name, value, rfl, hname⟩
  rcases delimited_of_mem_splitOn hpiece with ⟨before, behind, rfl, hbefore⟩
  have hcomma : ',' ∈ ",cmds".toList := by decide
  rw [hname]
  rcases hbefore with rfl | ⟨before, rfl⟩
  · exact (h name (value ++ behind) (by simp)).subset hcomma
  · have hbarred : Guarded (before ++ '|' :: (name ++ ':' :: value ++ behind)) := by
      simpa using h
    have hpiece' : Guarded (name ++ ':' :: value ++ behind) := hbarred.behind_bar
    exact (hpiece' name (value ++ behind) (by simp)).subset hcomma

/-- What is read from such a text when it is the value of a field. -/
theorem Guarded.pairsOf_field {cs : List Char} (h : Guarded cs) {name : List Char}
    (hname : '|' ∉ name ∧ ':' ∉ name) :
    pairsOf (name ++ ':' :: cs) = none ∨ ∃ others, pairsOf (name ++ ':' :: cs) =
        some ((String.ofList name, String.ofList
          (decodeDelimiters ((cs.takeWhile (· ≠ '|')).takeWhile (· ≠ ':')))) :: others) ∧
      ∀ kv ∈ others, ',' ∈ kv.1.toList := by
  rcases pairsOf_name hname cs with hpairs | ⟨others, hpairs, hothers⟩
  · exact .inl hpairs
  · refine .inr ⟨others, hpairs, ?_⟩
    rcases hothers with rfl | ⟨before, behind, rfl, hbehind⟩
    · simp
    · exact h.behind_bar.comma_mem hbehind

section Run

variable {E} {tenantid : String}

/-- What later calls do to the text that has been collected: they replace it or they
prolong it. -/
theorem later_calls (hE : ∀ s, Base64 (E.encode s)) {calls : List Call}
    (h : ∀ c ∈ calls, c.ChangesState) {collected : String} (hcollected : collected ≠ "") :
    ∃ text, Guarded text ∧ '\x00' ∉ text ∧ (calls = [] ∧ text = [] ∨ ",cmds:".toList <+: text) ∧
      ((",cmds:".toList <+: text ∧
          (calls.foldl (fun s c => (c.execute E tenantid s).1) collected).toList = text) ∨
        (calls.foldl (fun s c => (c.execute E tenantid s).1) collected).toList =
          collected.toList ++ text) := by
  induction calls generalizing collected with
  | nil => exact ⟨[], guarded_of_notMem (by simp), by simp, .inl ⟨rfl, rfl⟩, .inr (by simp)⟩
  | cons c calls ih =>
      have hc := h c List.mem_cons_self
      have htext : (c.execute E tenantid collected).1.toList = _ :=
        c.toList_execute hc.httpMethod collected
      rw [if_neg hcollected] at htext
      have hne : (c.execute E tenantid collected).1 ≠ "" := by
        intro hempty
        rw [hempty] at htext
        simp at htext
      rcases ih (fun c' hc' => h c' (List.mem_cons_of_mem _ hc')) hne with
        ⟨text, hguarded, hnull, -, hfold⟩
      rw [List.foldl_cons]
      -- the calls behind replace the text, or prolong what this one makes of it
      rcases hfold with ⟨hcmds, hfold⟩ | hfold
      · exact ⟨text, hguarded, hnull, .inr hcmds, .inl ⟨hcmds, hfold⟩⟩
      · have hguarded' : Guarded (",cmds".toList ++ ':' :: c.chars E) :=
          guarded_cmds (hc.notMem_chars hE (by simp))
        have hcmds : ",cmds:".toList <+: ",cmds".toList ++ ':' :: c.chars E ++ text :=
          ⟨c.chars E ++ text, by simp⟩
        have hnull' : '\x00' ∉ ",cmds".toList ++ ':' :: c.chars E := by
          have hchars : '\x00' ∉ c.chars E := hc.notMem_chars hE (by simp)
          simp [hchars]
        refine ⟨",cmds".toList ++ ':' :: c.chars E ++ text, hguarded'.append hguarded,
          fun hmem => (List.mem_append.mp hmem).elim hnull' hnull, .inr hcmds, ?_⟩
        rw [hfold, htext]
        split
        · left
          exact ⟨hcmds, by simp⟩
        · right
          simp

end Run

/-! ## What the storage node makes of it -/

/-- A command whose first two words there are has a key. -/
def Keyed (command : List String) : Prop :=
  ∃ w ws, command = w :: ws ∧ (ws ≠ [] ∨ w ∉ ["2", "5", "8"])

/-- A command with all words of its key has a queue. -/
theorem Keyed.isSome_queueKey {c : CommandInfo} (h : Keyed c.command)
    (htid : (c.fields.at? "tid").isSome) : (queueKey c).isSome := by
  rcases h with ⟨w, ws, hcommand, hws⟩
  rcases Option.isSome_iff_exists.mp htid with ⟨tid, htid⟩
  unfold queueKey
  simp only [htid, hcommand, Option.bind_eq_bind, Option.bind_some, List.getElem?_cons_zero]
  split
  case isTrue hdocument =>
      cases ws with
      | nil =>
          exfalso
          rcases hws with hws | hws
          · exact hws rfl
          · simp only [List.mem_cons, List.not_mem_nil, or_false] at hws
            exact hws hdocument
      | cons w' ws => simp
  case isFalse => simp

theorem takeWhile_keyed {fields : FieldValueMap} (htid : (fields.at? "tid").isSome) (tm : Int)
    {commands : List (List String)} (h : ∀ command ∈ commands, Keyed command) :
    (commands.map fun command => CommandInfo.mk fields tm command).takeWhile
        (fun c => (queueKey c).isSome) =
      commands.map fun command => CommandInfo.mk fields tm command := by
  rw [List.takeWhile_eq_self_iff]
  intro c hc
  rcases List.mem_map.mp hc with ⟨command, hcommand, rfl⟩
  exact Keyed.isSome_queueKey (h command hcommand) htid

theorem Call.keyed_words {E : Engine} (c : Call) : Keyed (c.words E) := by
  rcases c.exists_words (E := E) with ⟨w, w', ws, hws⟩
  exact ⟨w, w' :: ws, hws, .inl (by simp)⟩

section Delivered

variable {e : Envelope} {tenantid transactionId : String} {text rest : List Char}

/-- The pieces of a message behind its transaction's id. -/
theorem pairsOf_message (htx : Plain transactionId) (text : List Char) :
    pairsOf ("txid".toList ++ ':' :: transactionId.toList ++ '|' :: text) =
      (pairsOf text).map fun pairs =>
        ("txid", String.ofList (decodeDelimiters transactionId.toList)) :: pairs := by
  rw [pairsOf_append, pairsOf_plain (by decide) htx]
  cases pairsOf text <;> rfl

theorem delivered_eq (htx : Plain transactionId) (hnull : '\x00' ∉ text) (hne : text ≠ []) :
    '\x00' ∉ "txid".toList ++ ':' :: transactionId.toList ++ '|' :: text ∧
      delivered e transactionId (String.ofList text) =
        ((processIncomingData .stateChange (gossiped e (String.ofList
          ("txid".toList ++ ':' :: transactionId.toList ++ '|' :: text)))).map
            onStateChange).getD [] := by
  have hstring : cString (String.ofList text) = String.ofList text := by
    rw [cString, String.toList_ofList, takeWhile_of_notMem hnull]
  have hmessage : "txid:" ++ transactionId ++ "|" ++ String.ofList text =
      String.ofList ("txid".toList ++ ':' :: transactionId.toList ++ '|' :: text) := by
    apply String.toList_inj.mp
    simp
  constructor
  · simp [hnull, htx.2.2]
  · rw [delivered, processStateChangeCmds, hstring, if_neg (by simpa using hne), hmessage]

/-- A text that has lost its head is not taken for a state change. -/
theorem delivered_of_guarded (he : e.IsPlain) (htx : Plain transactionId) (hnull : '\x00' ∉ text)
    (hne : text ≠ []) (hguarded : Guarded text) :
    delivered e transactionId (String.ofList text) = [] := by
  rcases delivered_eq (e := e) htx hnull hne with ⟨hnull', hdelivered⟩
  have hpairs := pairsOf_message htx text
  rw [hdelivered]
  cases htext : pairsOf text with
  | none =>
      rw [htext, Option.map_none] at hpairs
      rw [processIncomingData_of_pairsOf_eq_none he hnull' hpairs]
      rfl
  | some pairs =>
      rw [htext, Option.map_some] at hpairs
      have hlookup : pairs.lookup "c" = none := by
        rw [List.lookup_eq_none_iff]
        intro kv hkv
        have hcomma := hguarded.comma_mem htext kv hkv
        rw [bne_iff_ne]
        intro hname
        rw [← hname] at hcomma
        exact absurd hcomma (by decide)
      rw [processIncomingData_eq_none he hnull' hpairs (by simpa [List.lookup_cons] using hlookup)]
      rfl

theorem start_append (tenantid : String) (rest : List Char) :
    start tenantid ++ rest =
      "c".toList ++ ':' :: "6".toList ++ '|' :: ("tid".toList ++ ':' :: tenantid.toList ++
        '|' :: ("cmds".toList ++ ':' :: rest)) := by
  have hhead : "c:6|tid:".toList = ['c', ':', '6', '|', 't', 'i', 'd', ':'] := by decide
  have hcmds : "|cmds:".toList = ['|', 'c', 'm', 'd', 's', ':'] := by decide
  have hnames : "c".toList = ['c'] ∧ "6".toList = ['6'] ∧ "tid".toList = ['t', 'i', 'd'] ∧
      "cmds".toList = ['c', 'm', 'd', 's'] := by
    decide
  unfold start
  simp only [hhead, hcmds, hnames, List.append_assoc, List.cons_append, List.nil_append]

theorem start_append_ne_nil (tenantid : String) (rest : List Char) :
    start tenantid ++ rest ≠ [] := by
  intro h
  have hcolon : ':' ∈ start tenantid ++ rest := by
    rw [start_append]
    simp
  rw [h] at hcolon
  cases hcolon

theorem null_notMem_start (htid : Plain tenantid) (hnull : '\x00' ∉ rest) :
    '\x00' ∉ start tenantid ++ rest := by
  rw [start_append]
  simp [htid.2.2, hnull]

/-- The text that starts with the head is read up to the delimiters in it. -/
theorem pairsOf_start (htid : Plain tenantid) (rest : List Char) :
    pairsOf (start tenantid ++ rest) = (pairsOf ("cmds".toList ++ ':' :: rest)).map fun pairs =>
      ("c", "6") :: ("tid", String.ofList (decodeDelimiters tenantid.toList)) :: pairs := by
  have hcode : pairsOf ("c".toList ++ ':' :: "6".toList) = some [("c", "6")] := by decide
  rw [start_append, pairsOf_append, hcode, pairsOf_append, pairsOf_plain (by decide) htid]
  cases pairsOf ("cmds".toList ++ ':' :: rest) <;> rfl

theorem delivered_of_none (he : e.IsPlain) (htid : Plain tenantid) (htx : Plain transactionId)
    (hnull : '\x00' ∉ rest) (h : pairsOf ("cmds".toList ++ ':' :: rest) = none) :
    delivered e transactionId (String.ofList (start tenantid ++ rest)) = [] := by
  rcases delivered_eq (e := e) htx (null_notMem_start htid hnull)
      (start_append_ne_nil tenantid rest) with ⟨hnull', hdelivered⟩
  have hpairs := pairsOf_message htx (start tenantid ++ rest)
  rw [pairsOf_start htid, h] at hpairs
  rw [hdelivered, processIncomingData_of_pairsOf_eq_none he hnull' hpairs]
  rfl

/-- The commands that are read from the text; a later field may bring another time. -/
theorem delivered_of_some (he : e.IsPlain) (htid : Plain tenantid) (htx : Plain transactionId)
    (hnull : '\x00' ∉ rest) {cmds : String} {others : List (String × String)}
    (h : pairsOf ("cmds".toList ++ ':' :: rest) = some (("cmds", cmds) :: others)) :
    ∃ fields, (FieldValueMap.at? fields "tid").isSome ∧
      delivered e transactionId (String.ofList (start tenantid ++ rest)) =
        ((stoll ((others.lookup "tm").getD (toString e.now))).map fun tm =>
          (((split ',' cmds).map (split ' ')).map fun command =>
            CommandInfo.mk fields tm command).takeWhile fun c => (queueKey c).isSome).getD [] := by
  rcases delivered_eq (e := e) htx (null_notMem_start htid hnull)
    (start_append_ne_nil tenantid rest) with ⟨hnull', hdelivered⟩
  have hpairs := pairsOf_message htx (start tenantid ++ rest)
  rw [pairsOf_start htid, h, Option.map_some, Option.map_some] at hpairs
  -- all fields that `onStateChange` asks for are there
  have hcode : CommandType.ofCode (atoi "6") = some .stateChange := by decide
  obtain ⟨f, hf, hat⟩ := processIncomingData_eq_some he hnull' hpairs
    (by simp [List.lookup_cons]) hcode
  have htid' : f.at? "tid" = some (String.ofList (decodeDelimiters tenantid.toList)) := by
    simp [hat, List.lookup_cons]
  have hcmds' : f.at? "cmds" = some cmds := by
    simp [hat, List.lookup_cons]
  have htxid' : f.at? "txid" = some (String.ofList (decodeDelimiters transactionId.toList)) := by
    simp [hat]
  have hk' : ∃ k, f.at? "k" = some k := by
    rcases hk : others.lookup "k" with _ | k
    · exact ⟨String.ofList (decodeDelimiters e.k.toList), by
        simp [hat, List.lookup_cons, hk, e.lookup_fields_k]⟩
    · exact ⟨k, by simp [hat, List.lookup_cons, hk]⟩
  have htm' : f.at? "tm" = some ((others.lookup "tm").getD (toString e.now)) := by
    have hlookup := e.lookup_fields_tm
    rcases htm : others.lookup "tm" with _ | tm
    · simp only [hat, List.lookup_cons, htm]
      simpa using hlookup
    · simp [hat, List.lookup_cons, htm]
  have hws' : ∃ ws, f.at? "ws" = some ws := by
    simp [hat]
  rcases hk' with ⟨k, hk'⟩
  rcases hws' with ⟨ws, hws'⟩
  refine ⟨f.filter fun kv => kv.1 ≠ "cmds", ?_, ?_⟩
  · rw [at?_filter_ne (by decide), htid']
    rfl
  · rw [hdelivered, hf, Option.map_some, Option.getD_some, onStateChange]
    simp only [htid', hcmds', htxid', hws', hk', htm', Option.bind_eq_bind, Option.bind_some,
      List.map_map]
    cases stoll ((others.lookup "tm").getD (toString e.now)) <;> rfl

/-- The commands that are read when no later field brings another time. -/
theorem delivered_of_comma (he : e.IsPlain) (htid : Plain tenantid) (htx : Plain transactionId)
    (hnull : '\x00' ∉ rest) {cmds : String} {others : List (String × String)}
    (h : pairsOf ("cmds".toList ++ ':' :: rest) = some (("cmds", cmds) :: others))
    (hothers : ∀ kv ∈ others, ',' ∈ kv.1.toList) :
    ∃ fields tm, (FieldValueMap.at? fields "tid").isSome ∧
      delivered e transactionId (String.ofList (start tenantid ++ rest)) =
        (((split ',' cmds).map (split ' ')).map fun command =>
          CommandInfo.mk fields tm command).takeWhile fun c => (queueKey c).isSome := by
  have htm : others.lookup "tm" = none := by
    rw [List.lookup_eq_none_iff]
    intro kv hkv
    rw [bne_iff_ne]
    intro hname
    have hcomma := hothers kv hkv
    rw [← hname] at hcomma
    exact absurd hcomma (by decide)
  rcases delivered_of_some he htid htx hnull h with ⟨fields, htid', hdelivered⟩
  rw [htm, Option.getD_none, stoll_toString he.now] at hdelivered
  exact ⟨fields, e.now, htid', hdelivered⟩

/-- A run with one command. -/
theorem delivered_single (he : e.IsPlain) (htid : Plain tenantid) (htx : Plain transactionId)
    {E : Engine} (hE : ∀ s, Base64 (E.encode s)) {c : Call} (hc : c.ChangesState) :
    (delivered e transactionId (String.ofList (start tenantid ++ c.chars E))).map (·.command) =
      if '|' ∈ c.chars E then [] else [c.words E] := by
  have hnull : '\x00' ∉ c.chars E := hc.notMem_chars hE (by simp)
  have hcolon : ':' ∉ c.chars E := hc.notMem_chars hE (by simp)
  split
  case isTrue hbar =>
      -- the piece behind the delimiter is no field
      rcases List.eq_append_cons_of_mem hbar with ⟨value, behind, hchars, hvalue⟩
      have hbehind : pairsOf behind = none :=
        pairsOf_eq_none fun hmem => hcolon (by simp [hchars, hmem])
      have hnone : pairsOf ("cmds".toList ++ ':' :: c.chars E) = none := by
        have hcons : "cmds".toList ++ ':' :: c.chars E =
            "cmds".toList ++ ':' :: value ++ '|' :: behind := by
          rw [hchars, List.append_assoc, List.cons_append]
        rw [hcons, pairsOf_append, hbehind]
        cases pairsOf ("cmds".toList ++ ':' :: value) <;> rfl
      rw [delivered_of_none he htid htx hnull hnone]
      rfl
  case isFalse hbar =>
      have hdecoded : decodeDelimiters (c.chars E) = c.chars E :=
        (decodeDelimiters_eq_self_iff _).mpr (decoded_of_notMem (hc.notMem_chars hE (by simp)))
      have hpairs : pairsOf ("cmds".toList ++ ':' :: c.chars E) =
          some [("cmds", String.ofList (c.chars E))] := by
        rw [pairsOf_field (by decide) hbar, takeWhile_of_notMem hcolon, hdecoded]
        rfl
      rcases delivered_of_comma he htid htx hnull hpairs (by simp) with
        ⟨fields, tm, htid', hdelivered⟩
      rw [split_of_notMem (hc.notMem_chars hE (by simp)), List.map_singleton, hc.split_chars hE,
        takeWhile_keyed htid' tm (by simpa using c.keyed_words)] at hdelivered
      rw [hdelivered]
      rfl

/-- Behind the first command at most a rest of the text `,cmds:` is read. -/
theorem delivered_several (he : e.IsPlain) (htid : Plain tenantid) (htx : Plain transactionId)
    {E : Engine} (hE : ∀ s, Base64 (E.encode s)) {c : Call} (hc : c.ChangesState)
    (hguarded : Guarded text) (hnull : '\x00' ∉ text) (hcmds : ",cmds:".toList <+: text) :
    ((delivered e transactionId (String.ofList (start tenantid ++ (c.chars E ++ text)))).map
        (·.command)).length ≤ 1 ∨
      (delivered e transactionId (String.ofList (start tenantid ++ (c.chars E ++ text)))).map
        (·.command) = [c.words E, ["cmds"]] := by
  have hnull' : '\x00' ∉ c.chars E ++ text := by
    simp [hnull, hc.notMem_chars hE (d := '\x00') (by simp)]
  have hcolon : ':' ∉ c.chars E := hc.notMem_chars hE (by simp)
  have hcomma : ',' ∉ c.chars E := hc.notMem_chars hE (by simp)
  have hpercent : '%' ∉ c.chars E := hc.notMem_chars hE (by simp)
  have hguarded' : Guarded (c.chars E ++ text) := (guarded_of_notMem hcolon).append hguarded
  have hcmdsName : '|' ∉ "cmds".toList ∧ ':' ∉ "cmds".toList := by decide
  rcases hguarded'.pairsOf_field hcmdsName with
    hpairs | ⟨others, hpairs, hothers⟩
  · left
    rw [delivered_of_none he htid htx hnull' hpairs]
    exact Nat.zero_le 1
  · rcases delivered_of_comma he htid htx hnull' hpairs hothers with
      ⟨fields, tm, htid', hdelivered⟩
    rcases hcmds with ⟨later, rfl⟩
    by_cases hbar : '|' ∈ c.chars E
    · -- the value ends inside of the first command
      left
      rcases List.eq_append_cons_of_mem hbar with ⟨value, behind, hchars, hvalue⟩
      have hnot : ∀ d, d ∉ c.chars E → d ∉ value := by
        intro d hd hmem
        exact hd (by simp [hchars, hmem])
      have htake : ((c.chars E ++ (",cmds:".toList ++ later)).takeWhile (· ≠ '|')).takeWhile
          (· ≠ ':') = value := by
        rw [hchars, List.append_assoc, List.cons_append, takeWhile_append_of_notMem hvalue,
          takeWhile_of_notMem (hnot _ hcolon)]
      have hdecoded : decodeDelimiters value = value :=
        (decodeDelimiters_eq_self_iff _).mpr (decoded_of_notMem (hnot _ hpercent))
      rw [htake, hdecoded, split_of_notMem (hnot _ hcomma)] at hdelivered
      rw [hdelivered, List.length_map]
      exact (List.takeWhile_sublist _).length_le
    · -- the value ends at the colon of `,cmds:`
      right
      have hword : '|' ∉ c.chars E ++ ",cmds:".toList ∧ ':' ∉ c.chars E ++ ",cmds".toList ∧
          '%' ∉ c.chars E ++ ",cmds".toList := by
        simp [hbar, hcolon, hpercent]
      have htake : ((c.chars E ++ (",cmds:".toList ++ later)).takeWhile (· ≠ '|')).takeWhile
          (· ≠ ':') = c.chars E ++ ",cmds".toList := by
        have hcons : c.chars E ++ ",cmds:".toList ++ later.takeWhile (· ≠ '|') =
            c.chars E ++ ",cmds".toList ++ ':' :: later.takeWhile (· ≠ '|') := by
          simp
        rw [← List.append_assoc, takeWhile_append hword.1, hcons,
          takeWhile_append_of_notMem hword.2.1]
      have hdecoded : decodeDelimiters (c.chars E ++ ",cmds".toList) = c.chars E ++ ",cmds".toList :=
        (decodeDelimiters_eq_self_iff _).mpr (decoded_of_notMem hword.2.2)
      have hsplit : split ',' (String.ofList (c.chars E ++ ",cmds".toList)) =
          [String.ofList (c.chars E), "cmds"] := by
        have hcons : c.chars E ++ ",cmds".toList = c.chars E ++ ',' :: "cmds".toList := rfl
        rw [hcons, split_append_of_notMem hcomma, split_of_notMem (by decide),
          String.ofList_toList]
      have hcmds : split ' ' "cmds" = ["cmds"] := by decide
      have hkeyed : ∀ command ∈ [c.words E, ["cmds"]], Keyed command := by
        intro command hcommand
        rcases List.mem_cons.mp hcommand with rfl | hcommand
        · exact c.keyed_words
        · rw [List.mem_singleton.mp hcommand]
          exact ⟨"cmds", [], rfl, .inr (by decide)⟩
      rw [htake, hdecoded, hsplit, List.map_cons, List.map_singleton, hc.split_chars hE, hcmds,
        takeWhile_keyed htid' tm hkeyed] at hdelivered
      rw [hdelivered]
      rfl

theorem commandsOf_singleton {E : Engine} {c : Call} (hc : c.ChangesState) (tenantid : String) :
    commandsOf E tenantid [c] = String.ofList (start tenantid ++ c.chars E) := by
  have hfirst : (c.execute E tenantid "").1 = String.ofList (start tenantid ++ c.chars E) := by
    rw [← String.toList_inj, String.toList_ofList, c.toList_execute hc.httpMethod, if_pos rfl]
  exact hfirst

/-- Two commands do not arrive. -/
theorem delivered_ne (he : e.IsPlain) (htid : Plain tenantid) (htx : Plain transactionId)
    {E : Engine} (hE : ∀ s, Base64 (E.encode s)) {c c' : Call} {calls : List Call}
    (hcalls : ∀ d ∈ c :: c' :: calls, d.ChangesState) :
    (delivered e transactionId (commandsOf E tenantid (c :: c' :: calls))).map (·.command) ≠
      (c :: c' :: calls).map (Call.words E) := by
  have hc := hcalls c List.mem_cons_self
  have hcons : commandsOf E tenantid (c :: c' :: calls) =
      (c' :: calls).foldl (fun s c => (c.execute E tenantid s).1) (commandsOf E tenantid [c]) :=
    List.foldl_cons ..
  have hne : commandsOf E tenantid [c] ≠ "" := by
    intro hempty
    have hlist := congrArg String.toList ((commandsOf_singleton hc tenantid).symm.trans hempty)
    rw [String.toList_ofList] at hlist
    exact start_append_ne_nil tenantid _ hlist
  -- behind the first call the text has `,cmds:` in it, and this ends the first command
  rcases later_calls hE (fun d hd => hcalls d (List.mem_cons_of_mem c hd)) hne with
    ⟨text, hguarded, hnull, hempty | hcmds, hfold⟩
  · exact absurd hempty.1 (by simp)
  · rw [← hcons] at hfold
    rcases hfold with ⟨-, hfold⟩ | hfold
    -- the text of the first call was replaced, so nothing is read
    · have htext : text ≠ [] := by
        rintro rfl
        exact absurd hcmds (by decide)
      rw [← String.ofList_toList (s := commandsOf E tenantid (c :: c' :: calls)), hfold,
        delivered_of_guarded he htx hnull htext hguarded]
      simp
    · rw [commandsOf_singleton hc, String.toList_ofList, List.append_assoc] at hfold
      rw [← String.ofList_toList (s := commandsOf E tenantid (c :: c' :: calls)), hfold]
      rcases delivered_several he htid htx hE hc hguarded hnull hcmds with hle | heq
      · intro hall
        rw [hall] at hle
        simp at hle
      -- the second command is a rest of the name
      · rw [heq]
        rcases c'.exists_words (E := E) with ⟨w, w', ws, hws⟩
        simp [hws]

end Delivered

/-- The commands of a run arrive exactly when there is one at most and its filter has
no `||`. -/
theorem commands_arrive_iff {E : Engine} (hE : ∀ s, Base64 (E.encode s)) {e : Envelope}
    (he : e.IsPlain) {tenantid transactionId : String} (htid : Plain tenantid)
    (htx : Plain transactionId) {args : List Arguments} {calls : List Call}
    (hread : args.mapM (Arguments.read E) = some calls) (hcalls : ∀ c ∈ calls, c.ChangesState) :
    ∃ cmds, stateChangeCmdsOf E tenantid args = some cmds ∧
      ((delivered e transactionId cmds).map (·.command) = calls.map (Call.words E) ↔
        calls.length ≤ 1 ∧ ∀ c ∈ calls, c.WithoutOr) := by
  refine ⟨commandsOf E tenantid calls, by rw [stateChangeCmdsOf_eq, hread]; rfl, ?_⟩
  rcases calls with _ | ⟨c, _ | ⟨c', calls⟩⟩
  · have hnothing : delivered e transactionId (commandsOf E tenantid []) = [] := rfl
    simp [hnothing]
  · have hc := hcalls c List.mem_cons_self
    rw [commandsOf_singleton hc, delivered_single he htid htx hE hc]
    by_cases hor : c.WithoutOr
    · have hbar : '|' ∉ c.chars E := fun hmem => (hc.bar_mem_chars_iff hE).mp hmem hor
      simp [hbar, hor]
    · have hbar : '|' ∈ c.chars E := (hc.bar_mem_chars_iff hE).mpr hor
      simp [hbar, hor]
  · exact iff_of_false (delivered_ne he htid htx hE hcalls) (by simp)

namespace Sample

/-- An engine that can encode one text. -/
def engine : Engine where
  parse := Json.read
  stringify j := (j.map Json.write).getD ""
  text
    | .str s => s
    | _ => ""
  text_str := fun _ => rfl
  lowerNames := id
  encode s := if s = "\x7b\"id\":\"a\"\x7d" then "eyJpZCI6ImEifQ==" else ""

theorem base64_encode (s : String) : Base64 (engine.encode s) := by
  unfold engine
  dsimp only
  split
  · unfold Base64
    decide
  · simp [Base64]

def envelope : Envelope := { msgid := "m", k := "k", now := 7, nonce := "n" }

theorem isPlain_envelope : envelope.IsPlain := by
  refine ⟨?_, ?_, ?_, by decide⟩ <;> unfold Plain envelope <;> decide

/-- The creation of a document. -/
def create : Arguments where
  jsonStr := "\x7b\"collections\":\x7b\"d\":\x7b\"rowset\":[\x7b\"id\":\"a\"\x7d]\x7d\x7d\x7d"
  templateId := "7"
  entityType := "document"
  httpMethod := "post"

def created : Call where
  httpMethod := "POST"
  entityType := "document"
  templateId := "7"
  jsonStr := "\x7b\"collections\":\x7b\"d\":\x7b\"rowset\":[\x7b\"id\":\"a\"\x7d]\x7d\x7d\x7d"
  rowset := "\x7b\"id\":\"a\"\x7d"

theorem read_create : create.read engine = some created := by
  decide +kernel

theorem changesState_created : created.ChangesState where
  httpMethod := by simp [created]
  templateId := by
    unfold Alphanumeric created
    decide
  rowfilter := by simp [created]

end Sample

/-- A single creation of a document arrives. -/
theorem commands_arrive_single :
    ∃ cmds, stateChangeCmdsOf Sample.engine "t" [Sample.create] = some cmds ∧
      (delivered Sample.envelope "x" cmds).map (·.command) =
        [["2", "7", "eyJpZCI6ImEifQ=="]] := by
  have hread : [Sample.create].mapM (Arguments.read Sample.engine) = some [Sample.created] := by
    simp [Sample.read_create]
  have hcalls : ∀ c ∈ [Sample.created], c.ChangesState := by
    simpa using Sample.changesState_created
  have htid : Plain "t" ∧ Plain "x" := by
    unfold Plain
    decide
  have hwords : [Sample.created].map (Call.words Sample.engine) =
      [["2", "7", "eyJpZCI6ImEifQ=="]] := by
    decide +kernel
  rcases commands_arrive_iff Sample.base64_encode Sample.isPlain_envelope htid.1 htid.2 hread
    hcalls with ⟨cmds, hcmds, hiff⟩
  rw [hwords] at hiff
  exact ⟨cmds, hcmds, hiff.mpr ⟨by simp, by simp [Call.WithoutOr, Sample.created]⟩⟩

/-- Of two creations none arrives: the second one replaces the text by one that starts with
`,cmds:`, which the storage node does not take for a state change. -/
theorem second_command_loses_both :
    (∀ s, Base64 (Sample.engine.encode s)) ∧ Sample.envelope.IsPlain ∧ Plain "t" ∧ Plain "x" ∧
      ∃ calls cmds,
        [Sample.create, Sample.create].mapM (Arguments.read Sample.engine) = some calls ∧
        (∀ c ∈ calls, c.ChangesState) ∧
        stateChangeCmdsOf Sample.engine "t" [Sample.create, Sample.create] = some cmds ∧
        (delivered Sample.envelope "x" cmds).map (·.command) ≠
          calls.map (Call.words Sample.engine) := by
  have htid : Plain "t" ∧ Plain "x" := by
    unfold Plain
    decide
  have hcalls : ∀ c ∈ [Sample.created, Sample.created], c.ChangesState := by
    simpa using Sample.changesState_created
  have hread : [Sample.create, Sample.create].mapM (Arguments.read Sample.engine) =
      some [Sample.created, Sample.created] := by
    simp [Sample.read_create]
  refine ⟨Sample.base64_encode, Sample.isPlain_envelope, htid.1, htid.2, _,
    ",cmds:2 7 eyJpZCI6ImEifQ==", hread, hcalls, ?_, ?_⟩
  · rw [stateChangeCmdsOf_eq, hread]
    decide +kernel
  · decide +kernel

end DecentralizedCloud.Compute

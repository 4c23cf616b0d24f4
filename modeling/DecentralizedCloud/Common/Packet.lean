import DecentralizedCloud.Common.Gossip

/-!
# Packets

What `gossip` puts on a channel, and what a subscriber reads of it. A message is either
a command with fields, whose values are encoded, or a text that is sent as it is. The text
goes to the subscribers of the channel in an envelope with a message id, the sender and
the time.

A command arrives with its number, the received values of its fields and the envelope,
whatever the values are (`Packet.readsFields`).
-/

namespace DecentralizedCloud

instance (key : String) : Decidable (OwnName key) :=
  decidable_of_iff ('|' ∉ key.toList ∧ ':' ∉ key.toList ∧ '\x00' ∉ key.toList ∧ key ∉ addedNames ∧
    key ≠ "")
    ⟨fun h => ⟨h.2.2.2.2, ⟨h.1, h.2.1⟩, h.2.2.1, h.2.2.2.1⟩,
      fun h => ⟨h.delimiterFree.1, h.delimiterFree.2, h.null, h.notAdded, h.ne_empty⟩⟩

/-- The two overloads of `gossip`. -/
inductive Gossip where
  | command (cmd : CommandType) (kv : FieldValueMap)
  | text (msg : String)
deriving DecidableEq

/-- The text of a message; `none` when a name of a field is reserved. -/
def Gossip.msg? : Gossip → Option String
  | .command cmd kv => gossipText cmd kv
  | .text msg => some msg

/-- A message that any node may send: it does not speak for a master about a transaction. -/
def Gossip.IsOrdinary : Gossip → Prop
  | .command cmd kv =>
      cmd ∉ [.codeDelivery, .canCommit, .txNotification] ∧
        (cmd = .exception → kv.at? "tx" = none) ∧ ∀ field ∈ kv, OwnName field.1
  | .text _ => False

instance : ∀ g : Gossip, Decidable (Gossip.IsOrdinary g)
  | .command _ _ => inferInstanceAs (Decidable (_ ∧ _ ∧ _))
  | .text _ => inferInstanceAs (Decidable False)

deriving instance DecidableEq for Envelope

structure Packet where
  channel : String
  envelope : Envelope
  msg : String
deriving DecidableEq

namespace Packet

/-- The text that `processIncomingData` gets. -/
def data (q : Packet) : String := gossiped q.envelope q.msg

def fields (q : Packet) : Option FieldValueMap := getFieldsAndValues q.data

/-- The packet is the message `g`. -/
def Carries (q : Packet) (g : Gossip) : Prop := g.msg? = some q.msg

instance (q : Packet) (g : Gossip) : Decidable (q.Carries g) :=
  inferInstanceAs (Decidable (_ = _))

/-- The command that the handlers are looked up for. -/
def command? (q : Packet) : Option CommandType :=
  q.fields.bind fun f => (f.at? "c").bind fun c => CommandType.ofCode (atoi c)

end Packet

theorem ofCode_atoi_code (cmd : CommandType) :
    CommandType.ofCode (atoi (toString cmd.code)) = some cmd := by
  cases cmd <;> decide

/-- A command arrives with its fields, and those of the envelope. -/
theorem Packet.readsFields {q : Packet} {cmd : CommandType} {kv : FieldValueMap}
    (he : q.envelope.IsGenerated) (hkv : ∀ field ∈ kv, OwnName field.1)
    (hq : q.Carries (.command cmd kv)) :
    ∃ f, q.fields = some f ∧ ReadsFields q.envelope cmd kv f := by
  obtain ⟨msg, f, hmsg, hf, hat⟩ := getFieldsAndValues_gossiped cmd he
    (fun field h => (hkv field h).not_reserved) fun field h => (hkv field h).delimiterFree
  have hsame : msg = q.msg := Option.some.inj (hmsg.symm.trans hq)
  subst hsame
  -- no field of the command hides one that is added
  have hnone : ∀ name ∈ addedNames, kv.at? name = none := by
    intro name hname
    rw [FieldValueMap.at?, List.lookup_eq_none_iff]
    rintro field hfield
    rw [bne_iff_ne]
    rintro rfl
    exact (hkv field hfield).notAdded hname
  have hrest : ∀ name, name ≠ "c" → f.at? name =
      ((kv.at? name).map receivedValue).or (q.envelope.fields.lookup name) := by
    intro name hname
    rw [hat, List.cons_append, List.lookup_cons, beq_eq_false_iff_ne.mpr hname, List.lookup_append,
      lookup_received fun field hfield => (hkv field hfield).null]
  rw [he.fields_eq] at hrest
  refine ⟨f, hf, ?_, ?_, ?_, ?_, ?_, ?_⟩
  · rw [hat]
    rfl
  · rw [hrest "msgid" (by decide), hnone "msgid" (by decide)]
    rfl
  · rw [hrest "k" (by decide), hnone "k" (by decide)]
    rfl
  · rw [hrest "tm" (by decide), hnone "tm" (by decide)]
    rfl
  · rw [hrest "nonce" (by decide), hnone "nonce" (by decide)]
    rfl
  · intro name hname
    simp only [List.mem_cons, List.not_mem_nil, or_false, not_or, ← beq_eq_false_iff_ne] at hname
    rw [hrest name (beq_eq_false_iff_ne.mp hname.1)]
    simp only [List.lookup_cons, hname, List.lookup_nil, Option.or_none]

theorem Packet.command?_of_command {q : Packet} {cmd : CommandType} {kv : FieldValueMap}
    (he : q.envelope.IsGenerated) (hkv : ∀ field ∈ kv, OwnName field.1)
    (hq : q.Carries (.command cmd kv)) : q.command? = some cmd := by
  rcases q.readsFields he hkv hq with ⟨f, hf, hreads⟩
  rw [Packet.command?, hf, Option.bind_some, hreads.c, Option.bind_some]
  exact ofCode_atoi_code cmd

/-- A text arrives with the id in front of it, whatever follows. -/
theorem Packet.txid_of_text {q : Packet} {txId rest : String} {f : FieldValueMap}
    (he : q.envelope.IsGenerated) (hmsg : q.msg = "txid:" ++ txId ++ "|" ++ rest)
    (hplain : Plain txId) (hpercent : '%' ∉ txId.toList) (hf : q.fields = some f) :
    f.at? "txid" = some txId := by
  have hid : withoutNull txId.toList = txId.toList := withoutNull_eq_self hplain.2.2
  have htext : withoutNull q.msg.toList =
      "txid".toList ++ ':' :: txId.toList ++ '|' :: withoutNull rest.toList := by
    have hfront : withoutNull "txid:".toList = "txid".toList ++ [':'] := by decide
    have hbar : withoutNull "|".toList = ['|'] := by decide
    simp only [hmsg, String.toList_append, withoutNull_append, hid, hfront, hbar]
    simp
  have hvalue : String.ofList (decodeDelimiters txId.toList) = txId := by
    rw [(decodeDelimiters_eq_self_iff _).mpr (decoded_of_notMem hpercent), String.ofList_toList]
  have hpairs := pairs_gossiped he.isPlain (notMem_withoutNull q.msg.toList)
  rw [gossiped_withoutNull, htext, pairsOf_append, pairsOf_plain (by decide) hplain, hvalue]
    at hpairs
  -- whatever the rest is, `txid` is the first pair
  cases hrest : pairsOf (withoutNull rest.toList) with
  | none =>
      rw [hrest] at hpairs
      rw [Packet.fields, Packet.data, getFieldsAndValues_eq, hpairs] at hf
      cases hf
  | some pairs =>
      rw [hrest] at hpairs
      rcases at?_getFieldsAndValues hpairs with ⟨f', hf', hat⟩
      cases hf.symm.trans hf'
      rw [hat]
      rfl

end DecentralizedCloud

import DecentralizedCloud.Cluster.Deployment

/-!
# State changes are queued once

The state changes of a transaction travel in one packet at most (`released_at_most_once`), but
a packet may arrive any number of times. The storage node notes the id of each message that it
handles, so it queues the commands of the packet once, and executes no others under the id of
the transaction (`applied_at_most_once`).

A query of a compute node and the state changes of a transaction are told apart by what
stands under `txid`: the UUID of a query has a dash in it.
-/

namespace DecentralizedCloud.System

open Machine Master Network Compute Storage
open StateQueue (CommandInfo)
open StateChangeQueues (pushed executed)

variable {n m : Nat} {P : Platform} {L : NodeLibrary} {V : Processor} {names : Names n m}
  {Sv : Services} {contents : String → Option Storage.Contents} {S S' S₀ : Cloud n m} {q : Packet}
  {s s' s₀ : StorageNode} {id : String} {decode : String → Option Json}

/-! ## Commands of a transaction -/

/-- The command is one of the state changes of the transaction. -/
def isFor (id : String) (c : CommandInfo) : Bool := c.fields.at? "txid" = some id

/-- A command keeps the fields of its message, apart from the commands themselves. -/
theorem fields_of_onStateChange {f : FieldValueMap} {c : CommandInfo} (h : c ∈ onStateChange f) :
    c.fields = f.filter fun kv => kv.1 ≠ "cmds" := by
  have hmem := (List.takeWhile_prefix _).subset h
  generalize hcommands : (do
    let _ ← f.at? "tid"
    let cmds ← f.at? "cmds"
    let _ ← f.at? "txid"
    let _ ← f.at? "ws"
    let _ ← f.at? "k"
    let time ← f.at? "tm"
    let tm ← stoll time
    let fields := f.filter fun (kv : String × String) => kv.1 ≠ "cmds"
    return (split ',' cmds).map fun val => CommandInfo.mk fields tm (split ' ' val)) = commands
    at hmem
  cases commands with
  | none => cases hmem
  | some commands =>
      simp only [Option.bind_eq_bind, Option.bind_eq_some_iff, Option.pure_def,
        Option.some.injEq] at hcommands
      rcases hcommands with ⟨_, -, cmds, -, _, -, _, -, _, -, _, -, tm, -, rfl⟩
      rcases List.mem_map.mp hmem with ⟨val, -, rfl⟩
      rfl

theorem isFor_of_onStateChange {f : FieldValueMap} {c : CommandInfo} (h : c ∈ onStateChange f) :
    isFor id c = decide (f.at? "txid" = some id) := by
  rw [isFor, fields_of_onStateChange h, at?_filter_ne (by decide)]

/-- What was handled brings commands for the transaction. -/
def bringsFor (id : String) (x : Handling) : Bool :=
  x.command = .stateChange && x.theFields.at? "txid" = some id

/-- A handling brings the commands of its message for one request, and for no other. -/
theorem filter_commands (id : String) (x : Handling) :
    x.commands.filter (isFor id) = if bringsFor id x then onStateChange x.theFields else [] := by
  unfold Handling.commands bringsFor
  by_cases hcommand : x.command = .stateChange
  · rw [if_pos hcommand, decide_eq_true hcommand, Bool.true_and]
    split
    case isTrue htxid =>
        rw [List.filter_eq_self]
        intro c hc
        rw [isFor_of_onStateChange hc]
        exact htxid
    case isFalse htxid =>
        rw [List.filter_eq_nil_iff]
        intro c hc
        rw [isFor_of_onStateChange hc]
        exact htxid
  · simp [hcommand]

theorem filter_flatMap_commands (id : String) (xs : List Handling) :
    (xs.flatMap Handling.commands).filter (isFor id) =
      (xs.filter (bringsFor id)).flatMap fun x => onStateChange x.theFields := by
  induction xs with
  | nil => rfl
  | cons x xs ih =>
      rw [List.flatMap_cons, List.filter_append, ih, filter_commands, List.filter_cons]
      split <;> rfl

/-! ## One packet -/

/-- Only the text of a compute node changes the state of the storage node. -/
theorem releases_of_bringsFor {x : Handling} (h : Connected P L V names decode S)
    (hplaced : Placed names S s) (hx : x ∈ s.handled) (hbrings : bringsFor id x = true) :
    releases id x.packet = true := by
  simp only [bringsFor, Bool.and_eq_true, decide_eq_true_eq] at hbrings
  rcases hplaced.sent x hx with ⟨hsent, hstorage⟩
  have henvelope := (h.settled.packets _ hsent).envelope
  have harrived := hplaced.handled.arrived x hx
  have hcommand : x.packet.command? = some .stateChange := by rw [harrived.command, hbrings.1]
  cases h.sources _ hsent with
  | master message hcarries =>
      -- no command of a master is a state change
      rcases message.gossip_eq L with ⟨cmd, kv, hgossip, hkv⟩
      rw [hgossip] at hcarries
      rw [Packet.command?_of_command henvelope hkv hcarries] at hcommand
      cases hcommand
      cases message <;> cases hgossip
  | command cmd kv hcarries hkv _ hstateChange =>
      rw [Packet.command?_of_command henvelope hkv hcarries] at hcommand
      exact absurd (hstateChange (Option.some.inj hcommand)) hstorage
  | text txId rest hmsg hid =>
      have hchars : ∀ c ∈ txId.toList, c.isDigit ∨ c.isLower ∨ c = '-' := by
        intro c hc
        rcases hid with huuid | hguid
        · exact huuid.chars c hc
        · exact .inr (.inl (hguid c hc))
      have hnot : ∀ c ∈ ['|', ':', '\x00', '%'], c ∉ txId.toList := by
        intro c hc hmem
        have hother : ∀ c ∈ ['|', ':', '\x00', '%'], ¬(c.isDigit ∨ c.isLower ∨ c = '-') := by
          decide
        exact hother c hc (hchars c hmem)
      have hfield := harrived.fields "txid" (by decide)
      rw [hbrings.2] at hfield
      rcases Option.bind_eq_some_iff.mp hfield.symm with ⟨fields, hfields, htxid⟩
      have hread := Packet.txid_of_text henvelope hmsg
        ⟨hnot _ (by decide), hnot _ (by decide), hnot _ (by decide)⟩ (hnot _ (by decide)) hfields
      cases htxid.symm.trans hread
      rw [releases, List.isPrefixOf_iff_prefix, hmsg]
      simp only [String.toList_append]
      exact List.prefix_append _ _

/-- The packets that bring commands for a transaction are no more than those that were sent. -/
theorem length_bringsFor_le (h : Connected P L V names decode S) (hplaced : Placed names S s) :
    (s.handled.filter (bringsFor id)).length ≤ S.sent.countP (releases id) := by
  have hnodup : ((s.handled.filter (bringsFor id)).map (·.packet)).Nodup :=
    hplaced.handled.nodup.sublist (List.filter_sublist.map _)
  have hsubset : (s.handled.filter (bringsFor id)).map (·.packet) ⊆
      S.sent.filter (releases id) := by
    intro q hq
    rcases List.mem_map.mp hq with ⟨x, hx, rfl⟩
    rcases List.mem_filter.mp hx with ⟨hmem, hbrings⟩
    exact List.mem_filter.mpr
      ⟨(hplaced.sent x hmem).1, releases_of_bringsFor h hplaced hmem hbrings⟩
  have hle := (hnodup.subperm hsubset).length_le
  rw [List.length_map] at hle
  rw [List.countP_eq_length_filter]
  exact hle

namespace Sample

def stateChange : CommandInfo where
  fields := [("txid", "tx"), ("c", "6"), ("tid", "t"), ("msgid", "t"), ("k", "c1"), ("tm", "100"),
    ("nonce", "1"), ("ws", "0")]
  timestamp := 100
  command := ["3", "e30="]

/-- The packet arrives twice. -/
def updating : List StorageEvent :=
  [ .receive release .empty, .update (.push 0 stateChange (.single stateChange (by decide))),
    .update (.start 0), .receive release .empty, .update (.take 0 stateChange),
    .update (.execute 0 stateChange) ]

end Sample

end DecentralizedCloud.System

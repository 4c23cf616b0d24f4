import Mathlib.Algebra.BigOperators.Fin
import DecentralizedCloud.Cluster.Authenticity
import DecentralizedCloud.Master.CommitOnce
import DecentralizedCloud.Master.Delivery

/-!
# State changes reach the storage node once

The state changes of a transaction leave the compute node that has run it when a master
lets it commit them. Each part has a reason of its own to do so at most once: a master
answers the client of a transaction of its own once, and then lets the node commit; a
compute node handles each message once. Together, over all masters and compute nodes and
however messages are delayed, lost or repeated:

* at most one message with the state changes of a transaction is ever sent to a storage
  node (`released_at_most_once`);
* there is a request behind it that a client has signed, 14 results for it have been
  gossiped before, and its state changes are those of a run of the function on the input
  of the request, whose output has been reported (`released_for_request`).
-/

namespace DecentralizedCloud.System

open Machine Master Network Compute

variable {n m : Nat} {P : Platform} {L : NodeLibrary} {V : Processor} {names : Names n m}
  {S S' : Cloud n m} {q : Packet} {i : Fin n} {j : Fin m} {id : String}

/-! ## Packets about a transaction -/

/-- The packet is the command about the transaction. -/
def isAbout (cmd : CommandType) (id : String) (q : Packet) : Bool :=
  q.command? = some cmd && (q.fields.bind (·.at? "txid")) = some id

/-- The packet tells a compute node to commit the transaction. -/
def commits (names : Names n m) (id : String) (q : Packet) : Bool :=
  decide (∃ j, names.compute j = q.channel) && isAbout .canCommit id q

/-- The commits that a master has sent for the transaction. -/
def Cloud.commitsOf (S : Cloud n m) (id : String) (i : Fin n) : List Effect :=
  ((S.masters i).master.view id).commits

theorem receivedValue_of_isGuid (h : IsGuid id) : receivedValue id = id := by
  rw [receivedValue_eq_self_iff]
  exact ⟨fun hnull => absurd (h _ hnull) (by decide),
    decoded_of_notMem fun hpercent => absurd (h _ hpercent) (by decide)⟩

/-! ## The texts -/

/-- The text of a command begins with its number. -/
theorem prefix_of_gossipText {cmd : CommandType} {kv : FieldValueMap} {msg : String}
    (h : gossipText cmd kv = some msg) : "c:".toList <+: msg.toList := by
  -- each field goes behind what is there
  have hfold : ∀ (kv : FieldValueMap) (msg₀ : String), kv.foldlM (fun msg field =>
      if isReserved field.1 then none
      else some (msg ++ "|" ++ field.1 ++ ":" ++
        String.ofList (encodeDelimiters field.2.toList))) msg₀ = some msg →
      msg₀.toList <+: msg.toList := by
    intro kv
    induction kv with
    | nil =>
        intro msg₀ h
        cases h
        exact List.prefix_rfl
    | cons field kv ih =>
        intro msg₀ h
        rw [List.foldlM_cons] at h
        rcases Option.bind_eq_some_iff.mp h with ⟨msg₁, hmsg₁, hrest⟩
        split at hmsg₁
        case isTrue => cases hmsg₁
        case isFalse =>
            cases hmsg₁
            refine List.IsPrefix.trans ?_ (ih _ hrest)
            simp only [String.toList_append, List.append_assoc]
            exact List.prefix_append _ _
  refine List.IsPrefix.trans ?_ (hfold kv _ h)
  rw [String.toList_append]
  exact List.prefix_append _ _

/-- A command does not carry state changes. -/
theorem releases_of_command {cmd : CommandType} {kv : FieldValueMap}
    (h : q.Carries (.command cmd kv)) : releases id q = false := by
  rw [← Bool.not_eq_true, releases, List.isPrefixOf_iff_prefix]
  intro hreleases
  rcases prefix_of_gossipText h with ⟨rest, hrest⟩
  rw [← hrest] at hreleases
  have hhead : ("txid:" ++ id ++ "|").toList = 't' :: ("xid:" ++ id ++ "|").toList := by
    simp only [String.toList_append]
    rfl
  rw [hhead] at hreleases
  have hcommand : "c:".toList ++ rest = 'c' :: ':' :: rest := rfl
  rw [hcommand, List.cons_prefix_cons] at hreleases
  exact absurd hreleases.1 (by decide)

/-- What stands before the first bar. -/
theorem takeWhile_bar {zs rest : List Char} (h : '|' ∉ zs) :
    (zs ++ '|' :: rest).takeWhile (· ≠ '|') = zs := by
  rw [List.takeWhile_append_of_pos, List.takeWhile_cons_of_neg (by decide), List.append_nil]
  intro c hc
  rw [decide_eq_true_eq]
  rintro rfl
  exact h hc

theorem releases_text {txId rest : String} (hid : '|' ∉ id.toList) (htxId : '|' ∉ txId.toList)
    (hq : q.msg = "txid:" ++ txId ++ "|" ++ rest) (h : releases id q = true) : txId = id := by
  rw [releases, List.isPrefixOf_iff_prefix, hq] at h
  simp only [String.toList_append, List.append_assoc, List.prefix_append_right_inj] at h
  rcases h with ⟨tail, htail⟩
  have hbar : "|".toList = ['|'] := rfl
  simp only [hbar, List.append_assoc, List.cons_append, List.nil_append] at htail
  have hfront := congrArg (List.takeWhile (· ≠ '|')) htail
  rw [takeWhile_bar hid, takeWhile_bar htxId] at hfront
  exact String.toList_inj.mp hfront.symm

theorem isGuid_bar (h : IsGuid id) : '|' ∉ id.toList := fun hmem => absurd (h _ hmem) (by decide)

/-- A query under a UUID does not carry the state changes of a transaction. -/
theorem releases_of_query {uuid input : String} (hid : IsGuid id) (huuid : IsUuid uuid)
    (hq : q.Carries (.text ("txid:" ++ uuid ++ "|" ++ input))) : releases id q = false := by
  rw [← Bool.not_eq_true]
  intro hreleases
  have hbar : '|' ∉ uuid.toList := fun hmem => absurd (huuid.chars _ hmem) (by decide)
  have hsame := releases_text (isGuid_bar hid) hbar (Option.some.inj hq).symm hreleases
  rw [hsame] at huuid
  exact absurd (hid _ huuid.dash) (by decide)

/-! ## The commits of a master -/

theorem view_acknowledged {a b : Master} (h : Acknowledged a b) (id : String) :
    (b.view id).held = (a.view id).held ∧ (b.view id).commits = (a.view id).commits := by
  rcases h.sent with ⟨acks, hsent, hacks⟩
  have hnone : acks.filter (fun e => e.commits id) = [] := by
    rw [List.filter_eq_nil_iff]
    intro effect heffect
    rcases hacks effect heffect with ⟨key, ackId, txid, rfl⟩
    simp [Effect.commits]
  simp only [view, h.transactions, hsent, List.filter_append, hnone, List.append_nil, and_self]

theorem counter_acknowledged {a b : Master} (h : Acknowledged a b) (id : String) :
    counter id b = counter id a := by
  rw [counter, counter, (view_acknowledged h id).1]

theorem commitInv_acknowledged {a b : Master} {ids : List String} (hab : Acknowledged a b)
    (h : CommitInv id ids (a.view id)) : CommitInv id ids (b.view id) := by
  rcases view_acknowledged hab id with ⟨hheld, hcommits⟩
  refine h.of_held hcommits ?_
  rw [hheld]
  exact fun tx htx => ⟨tx, htx, .refl tx⟩

theorem sent_prefix_masterMoves {s s' : MasterSite} {e : MasterEvent} (h : MasterMoves P s e s') :
    s.master.sent <+: s'.master.sent := by
  cases h with
  | quiet hmaster =>
      rcases hmaster.sent with ⟨acks, hsent, -⟩
      exact ⟨acks, hsent.symm⟩
  | handles hmaster _ _ hhandle =>
      rcases hmaster.sent with ⟨acks, hsent, -⟩
      exact List.IsPrefix.trans ⟨acks, hsent.symm⟩ (sent_prefix_handle hhandle)

/-- The commits after a step are those before it and the new ones. -/
theorem commits_masterMoves {s s' : MasterSite} {e : MasterEvent} (h : MasterMoves P s e s')
    (id : String) : (s'.master.view id).commits =
      (s.master.view id).commits ++ (newEffects s.master s'.master).filter (·.commits id) := by
  rcases sent_prefix_masterMoves h with ⟨rest, hrest⟩
  simp only [view, newEffects, ← hrest, List.filter_append, List.drop_left]

/-- An accepted request is one that the machine counts as created. -/
theorem logged_of_accepted {s : MasterSite} {a b : Master} {env : Env} {msg : Msg}
    (hfresh : ∀ r ∈ accepted P a env msg,
      r.id ∉ s.requests.map (·.id) ∧ a.transactions.find r.id = none)
    (hhandle : handle P a ⟨env, msg⟩ = some b) :
    FreshIds P (a, s.requests.map (·.id)) ⟨env, msg⟩ ∧
      logged (handle P) (created P) (a, s.requests.map (·.id)) ⟨env, msg⟩ =
        some (b, (s.requests ++ accepted P a env msg).map (·.id)) := by
  simp only [logged, hhandle, Option.map_some, List.map_append]
  cases msg with
  | exeFunction p =>
      by_cases haccepted : Accepted P a p
      · have hnew : accepted P a env (.exeFunction p) = [⟨env.guid, p, env.now⟩] :=
          if_pos haccepted
        have hrequest := hfresh ⟨env.guid, p, env.now⟩ (by simp [hnew])
        have hheld : (a.view env.guid).held = none := hrequest.2
        exact ⟨fun _ => hrequest.1, by simp [hnew, created, haccepted, hheld]⟩
      · have hnone : accepted P a env (.exeFunction p) = [] := if_neg haccepted
        exact ⟨fun h => absurd h haccepted, by simp [hnone, created, haccepted]⟩
  | verificationResult | txNotification | exception | forwardedException | cleanup | closeBlock =>
      exact ⟨trivial, rfl⟩

/-- What holds of the commits of all masters. -/
def Cloud.CommitsOnce (S : Cloud n m) : Prop :=
  ∀ i id, CommitInv id ((S.masters i).requests.map (·.id)) ((S.masters i).master.view id)

theorem fresh_of_moves {e : MasterEvent} {a : Master} {msg : Msg}
    (hallowed : AllowedMaster P L names S i e)
    (hstep : (S.masters i).step P e = some (S'.masters i))
    (hmaster : Acknowledged (S.masters i).master a)
    (hrequests : (S'.masters i).requests = (S.masters i).requests ++ accepted P a e.env msg) :
    ∀ r ∈ accepted P a e.env msg,
      r.id ∉ (S.masters i).requests.map (·.id) ∧ a.transactions.find r.id = none := by
  intro r hr
  rcases hallowed.fresh _ hstep r (by rw [hrequests, List.drop_left]; exact hr) with
    ⟨-, hnew, hfind⟩
  refine ⟨?_, by rw [hmaster.transactions]; exact hfind⟩
  intro hmem
  rcases List.mem_map.mp hmem with ⟨r', hr', hid⟩
  exact hnew ⟨i, r', hr', hid⟩

/-- No step makes a master commit a request twice. -/
theorem commitsOnce_step {p : Place n m} {e : SiteEvent p} (h : S.CommitsOnce)
    (hallowed : Allowed P L names S ⟨p, e⟩) (hmoves : (protocol P L V).Moves S p e S') :
    S'.CommitsOnce := by
  intro k id
  by_cases hp : Place.master k = p
  · subst hp
    have hstep := masterStep_of_moves hmoves
    cases masterMoves_of_step hstep with
    | quiet hmaster _ hrequests =>
        rw [hrequests]
        exact commitInv_acknowledged hmaster (h k id)
    | handles hmaster _ _ hhandle hrequests =>
        rcases logged_of_accepted (fresh_of_moves hallowed hstep hmaster hrequests) hhandle with
          ⟨hfresh, hlogged⟩
        rw [hrequests]
        exact commitInv_step _ _ _ (commitInv_acknowledged hmaster (h k id)) hfresh hlogged
  · rw [Cloud.masters, hmoves.others _ hp]
    exact h k id

/-- A commit is sent when 14 results have been counted. -/
theorem counter_of_commits {s s' : MasterSite} {e : MasterEvent} (h : MasterMoves P s e s')
    (hcommits : (s'.master.view id).commits ≠ (s.master.view id).commits) :
    14 ≤ counter id s'.master := by
  cases h with
  | quiet hmaster => exact absurd (view_acknowledged hmaster id).2 hcommits
  | handles hmaster _ _ hhandle =>
      rw [← (view_acknowledged hmaster id).2] at hcommits
      rcases (verified_of_commits hhandle hcommits).1 with ⟨tx, hheld, hverified⟩
      have hview : (s'.master.view id).held = some tx := hheld
      have htotal := ((Transaction.isVerified_iff tx).mp hverified).1
      simp only [counter, hview, Option.map_some, Option.getD_some]
      omega

/-! ## The packets that let a node commit -/

theorem isAbout_command {cmd cmd' : CommandType} {kv : FieldValueMap}
    (he : q.envelope.IsGenerated) (hkv : ∀ field ∈ kv, OwnName field.1)
    (hq : q.Carries (.command cmd kv)) :
    isAbout cmd' id q = true ↔ cmd = cmd' ∧ (kv.at? "txid").map receivedValue = some id := by
  rcases q.readsFields he hkv hq with ⟨f, hf, hreads⟩
  simp only [isAbout, q.command?_of_command he hkv hq, hf, Option.bind_some,
    hreads.others "txid" (by decide), Bool.and_eq_true, decide_eq_true_eq, Option.some.injEq]

theorem commits_of_plain (he : q.envelope.IsGenerated) (hplain : Plain names q) :
    commits names id q = false := by
  rw [← Bool.not_eq_true]
  intro hcommits
  simp only [commits, Bool.and_eq_true, decide_eq_true_eq] at hcommits
  cases hplain with
  | ordinary g hcarries hg =>
      cases g with
      | command cmd kv =>
          rcases (isAbout_command he hg.2.2 hcarries).mp hcommits.2 with ⟨rfl, -⟩
          exact absurd (by decide) hg.1
      | text => exact hg
  | storage hchannel => exact hchannel (.inr (.inr (.inr hcommits.1)))

theorem message_of_isAbout {message : Message} (he : q.envelope.IsGenerated)
    (hq : q.Carries (message.gossip L)) (h : isAbout .canCommit id q = true) :
    ∃ txid sid tid, message = .canCommit txid sid tid ∧ receivedValue txid = id := by
  rcases message.gossip_eq L with ⟨cmd, kv, hmessage, hkv⟩
  rw [hmessage] at hq
  rcases (isAbout_command he hkv hq).mp h with ⟨rfl, htxid⟩
  cases message with
  | canCommit txid sid tid =>
      cases hmessage
      exact ⟨txid, sid, tid, rfl, Option.some.inj htxid⟩
  | txNotification | codeDelivery | exception | closeBlock => cases hmessage

/-- A commit that a master sends is for a transaction of its own. -/
theorem requested_of_effect (hsites : MasterSound P names S i (S.masters i))
    (honce : S.CommitsOnce) {channel txid sid tid : String}
    (heffect : Effect.gossip channel (.canCommit txid sid tid) ∈ (S.masters i).master.sent) :
    IsGuid txid ∧ txid ∈ (S.masters i).requests.map (·.id) := by
  have hcommits : ((S.masters i).master.view txid).commits ≠ [] := by
    intro hnone
    exact absurd (List.filter_eq_nil_iff.mp hnone _ heffect) (by simp [Effect.commits])
  have hid := (honce i txid).created hcommits
  rcases List.mem_map.mp hid with ⟨r, hr, rfl⟩
  exact ⟨(hsites.requests r hr).1, hid⟩

/-- Each packet comes of one message. -/
theorem countP_inEnvelopes {sender : String} {now : Int} {stamps : List Stamp}
    {out : List (String × Gossip)} {A : Packet → Bool} {B : String × Gossip → Bool}
    (h : ∀ q ∈ inEnvelopes sender now stamps out, ∀ g, (q.channel, g) ∈ out → q.Carries g →
      A q = true → B (q.channel, g) = true) :
    (inEnvelopes sender now stamps out).countP A ≤ out.countP B := by
  have hmono : (inEnvelopes sender now stamps out).countP A ≤
      out.zipIdx.countP (fun x => B x.1) := by
    have hmem : ∀ x ∈ out.zipIdx, ∀ msg, x.1.2.msg? = some msg →
        (⟨x.1.1, ⟨((stamps[x.2]?).getD ⟨"", ""⟩).msgid, sender, now,
          ((stamps[x.2]?).getD ⟨"", ""⟩).nonce⟩, msg⟩ : Packet) ∈
            inEnvelopes sender now stamps out := by
      rintro ⟨message, k⟩ hx msg hmsg
      exact List.mem_filterMap.mpr ⟨(message, k), hx,
        Option.map_eq_some_iff.mpr ⟨msg, hmsg, rfl⟩⟩
    -- a message without a text has no packet
    rw [inEnvelopes, List.countP_filterMap]
    apply List.countP_mono_left
    rintro ⟨message, k⟩ hx hA
    cases hmsg : message.2.msg? with
    | none => simp [hmsg] at hA
    | some msg =>
        simp only [hmsg, Option.map_some, Option.getD_some] at hA
        have hmessage : message ∈ out := (List.mem_zipIdx' hx).2 ▸ List.getElem_mem _
        exact h _ (hmem _ hx msg hmsg) message.2 hmessage hmsg hA
  have hfst : out.zipIdx.countP (fun x => B x.1) = out.countP B := by
    have hmap : (out.zipIdx.map Prod.fst).countP B = out.countP B := by rw [List.zipIdx_map_fst]
    rw [← hmap, List.countP_map]
    rfl
  rwa [hfst] at hmono

/-- A message that is a commit of the transaction. -/
def isCommit (id : String) : String × Gossip → Bool
  | (_, .command .canCommit kv) => kv.at? "txid" = some id
  | _ => false

/-- The new commits of a master are at least as many as the new packets with one. -/
theorem countP_commits_master (id : String) {e : MasterEvent} (hallowed : AllowedMaster P L names S i e)
    (hs : MasterSound P names S i (S.masters i)) (hs' : MasterSound P names S' i (S'.masters i))
    (honce' : S'.CommitsOnce) :
    (inEnvelopes (S.masters i).master.nodeId e.env.now e.stamps
      ((S.masters i).outgoing L (S'.masters i))).countP (commits names id) ≤
    (newEffects (S.masters i).master (S'.masters i).master).countP (·.commits id) := by
  have hnodeId : ∀ c ∈ (S.masters i).master.nodeId.toList, c.isDigit ∨ c.isLower := by
    rw [hs.nodeId]
    exact names.master_chars i
  refine Nat.le_trans (countP_inEnvelopes (B := isCommit id) ?_) ?_
  -- a packet with a commit of `id` is the `canCommit` message for `id`
  · intro q hq g hg hcarries hcommits
    simp only [commits, Bool.and_eq_true] at hcommits
    rcases List.mem_filterMap.mp hg with ⟨effect, heffect, hgossip⟩
    cases effect with
    | send | dhtPut => cases hgossip
    | gossip channel message =>
        cases hgossip
        rcases message_of_isAbout (isGenerated_of_mem hallowed.stamped hnodeId hq) hcarries
          hcommits.2 with ⟨txid, sid, tid, rfl, hid⟩
        have hguid := (requested_of_effect hs' honce' (List.mem_of_mem_drop heffect)).1
        rw [receivedValue_of_isGuid hguid] at hid
        subst hid
        simp [Message.gossip, isCommit, FieldValueMap.at?]
  · rw [MasterSite.outgoing, List.countP_filterMap]
    -- and there is one effect for each message
    apply List.countP_mono_left
    intro effect _ hcommit
    cases effect with
    | send | dhtPut => cases hcommit
    | gossip channel message =>
        cases message with
        | canCommit txid sid tid =>
            simpa [Effect.gossip?, Message.gossip, isCommit, FieldValueMap.at?, Effect.commits]
              using hcommit
        | txNotification | codeDelivery | exception | closeBlock => cases hcommit

/-! ## What all runs keep -/

/-- The invariants that the counting below rests on. -/
structure Settled (P : Platform) (L : NodeLibrary) (V : Processor) (names : Names n m)
    (S : Cloud n m) : Prop where
  sites : ∀ p, SiteSound P V names S p (S.node p)
  packets : ∀ q ∈ S.sent, PacketSound P L names S q
  distinct : S.Distinct
  commitsOnce : S.CommitsOnce
  /-- a packet that lets a node commit comes from a commit of a master -/
  counted : ∀ id, S.sent.countP (commits names id) ≤ ∑ i, (S.commitsOf id i).length

theorem commitsOf_of_ne {p : Place n m} {e : SiteEvent p} (hmoves : (protocol P L V).Moves S p e S')
    (hp : Place.master i ≠ p) (id : String) : S'.commitsOf id i = S.commitsOf id i := by
  rw [Cloud.commitsOf, Cloud.commitsOf, Cloud.masters, Cloud.masters, hmoves.others _ hp]

theorem countP_commits_of_plain {ps : List Packet}
    (h : ∀ q ∈ ps, q.envelope.IsGenerated ∧ Plain names q) : ps.countP (commits names id) = 0 := by
  rw [List.countP_eq_zero]
  intro q hq
  rw [commits_of_plain (h q hq).1 (h q hq).2]
  exact Bool.false_ne_true

/-- After a step the packets with a commit are no more than the commits of the masters. -/
theorem counted_step {p : Place n m} {e : SiteEvent p} (h : Settled P L V names S)
    (hallowed : Allowed P L names S ⟨p, e⟩) (hmoves : (protocol P L V).Moves S p e S')
    (hsites' : ∀ p, SiteSound P V names S' p (S'.node p)) (id : String) :
    S'.sent.countP (commits names id) ≤ ∑ i, (S'.commitsOf id i).length := by
  rw [hmoves.sent, List.countP_append]
  have hold := h.counted id
  cases p with
  | master k =>
      have hnew := countP_commits_master id hallowed (h.sites (.master k)) (hsites' (.master k))
        (commitsOnce_step h.commitsOnce hallowed hmoves)
      -- only the commits of this master have become more
      have hcommits : ∀ i, (S'.commitsOf id i).length = (S.commitsOf id i).length +
          if i = k then (newEffects (S.masters k).master (S'.masters k).master).countP (·.commits id)
          else 0 := by
        intro i
        by_cases hi : i = k
        · subst hi
          have happend := commits_masterMoves (masterMoves_of_step (masterStep_of_moves hmoves)) id
          rw [if_pos rfl, Cloud.commitsOf, happend, List.length_append, List.countP_eq_length_filter]
          rfl
        · rw [if_neg hi, commitsOf_of_ne hmoves (by simpa using hi), Nat.add_zero]
      simp only [hcommits, Finset.sum_add_distrib, Finset.sum_ite_eq', Finset.mem_univ, if_true]
      exact Nat.add_le_add hold hnew
  | compute j =>
      have hprovenance : ComputeSound V names S' j (S'.computes j) := hsites' (.compute j)
      have hs : ComputeSound V names S j (S.computes j) := h.sites (.compute j)
      have hchars : ∀ c ∈ (S.computes j).receiver.nodeId.toList, c.isDigit ∨ c.isLower := by
        rw [hs.receiver]
        exact names.compute_chars j
      have hnone : (inEnvelopes (S.computes j).receiver.nodeId e.now e.stamps
          (computeOutgoing (S.computes j) (S'.computes j))).countP (commits names id) = 0 :=
        countP_commits_of_plain fun q hq => ⟨isGenerated_of_mem hallowed.stamped hchars hq,
          plain_of_compute hprovenance.provenance hq⟩
      have hsame : ∑ i, (S'.commitsOf id i).length = ∑ i, (S.commitsOf id i).length :=
        Finset.sum_congr rfl fun i _ => by rw [commitsOf_of_ne hmoves nofun]
      rw [hsame]
      exact Nat.le_trans (Nat.add_le_add_left (Nat.le_of_eq hnone) _) hold
  | elsewhere =>
      have hnone : (inEnvelopes e.sender e.now e.stamps e.out).countP (commits names id) = 0 :=
        countP_commits_of_plain fun q hq =>
          ⟨isGenerated_of_mem hallowed.stamped hallowed.sender hq, plain_of_outside hallowed hq⟩
      have hsame : ∑ i, (S'.commitsOf id i).length = ∑ i, (S.commitsOf id i).length :=
        Finset.sum_congr rfl fun i _ => by rw [commitsOf_of_ne hmoves nofun]
      rw [hsame]
      exact Nat.le_trans (Nat.add_le_add_left (Nat.le_of_eq hnone) _) hold

theorem settled_step {p : Place n m} {e : SiteEvent p} (h : Settled P L V names S)
    (hallowed : Allowed P L names S ⟨p, e⟩) (hmoves : (protocol P L V).Moves S p e S') :
    Settled P L V names S' := by
  have hsound := inductive_sound.moves h.sites h.packets hallowed hmoves
  exact ⟨hsound.1, hsound.2, distinct_step h.distinct hallowed hmoves,
    commitsOnce_step h.commitsOnce hallowed hmoves, counted_step h hallowed hmoves hsound.1⟩

theorem settled_start (hstart : Start names S) : Settled P L V names S where
  sites := siteSound_start hstart
  packets := by simp [hstart.sent]
  distinct := by
    intro i i' r hr
    rw [hstart.requests i] at hr
    cases hr
  commitsOnce := by
    intro i id
    have hview : (S.masters i).master.view id =
        { held := none, queued := [], responses := [], commits := [] } := hstart.unknown i id
    rw [hview]
    exact ⟨by simp, by simp, by simp, by simp⟩
  counted := by simp [hstart.sent]

/-- Every run is one of settled states. -/
theorem settled_run {S₀ : Cloud n m} {es : List ((p : Place n m) × SiteEvent p)}
    (hstart : Start names S₀)
    (h : Trace (protocol P L V).next (Allowed P L names) S₀ es S) :
    Trace (protocol P L V).next (fun S e => Allowed P L names S e ∧ Settled P L V names S) S₀ es S ∧
      Settled P L V names S :=
  h.and_invariant (settled_start hstart) fun _ _ _ hsettled hallowed hstep =>
    settled_step hsettled hallowed (Protocol.moves_of_next hstep)

/-- A transaction that may be committed is one of a request. -/
theorem requested_of_commits (h : Settled P L V names S) (hq : q ∈ S.sent)
    (hcommits : commits names id q = true) :
    ∃ i, S.commitsOf id i ≠ [] ∧ IsGuid id ∧ ∃ r ∈ (S.masters i).requests, r.id = id := by
  have hpos : 0 < ∑ i, (S.commitsOf id i).length :=
    Nat.lt_of_lt_of_le (List.countP_pos_iff.mpr ⟨q, hq, hcommits⟩) (h.counted id)
  rcases Finset.exists_ne_zero_of_sum_ne_zero (Nat.pos_iff_ne_zero.mp hpos) with ⟨i, -, hi⟩
  have hne : S.commitsOf id i ≠ [] := fun hnil => hi (by rw [hnil]; rfl)
  rcases List.mem_map.mp ((h.commitsOnce i id).created hne) with ⟨r, hr, hid⟩
  have hsound : MasterSound P names S i (S.masters i) := h.sites (.master i)
  exact ⟨i, hne, hid ▸ (hsound.requests r hr).1, r, hr, hid⟩

/-- Over all masters there is one commit for a transaction at most. -/
theorem sum_commits_le_one (h : Settled P L V names S) (id : String) :
    ∑ i, (S.commitsOf id i).length ≤ 1 := by
  by_cases hnone : ∀ i, S.commitsOf id i = []
  · simp [hnone]
  · rcases not_forall.mp hnone with ⟨i, hi⟩
    rcases List.mem_map.mp ((h.commitsOnce i id).created hi) with ⟨r, hr, hid⟩
    rw [Finset.sum_eq_single i]
    · exact (h.commitsOnce i id).once
    · intro k _ hk
      -- the id belongs to a request of one master
      by_contra hne
      have hcommits : S.commitsOf id k ≠ [] := fun hnil => hne (by rw [hnil]; rfl)
      rcases List.mem_map.mp ((h.commitsOnce k id).created hcommits) with ⟨r', hr', hid'⟩
      exact hk (h.distinct k i r' hr' r hr (hid'.trans hid.symm)).1
    · exact fun hnot => absurd (Finset.mem_univ i) hnot

/-! ## The results behind a commit -/

/-- The packets that a place has taken. -/
def took : ∀ p : Place n m, Site p → Packet → Bool
  | .master _ => fun s q => noted s.receiver q
  | .compute _ => fun c q => noted c.receiver q
  | .elsewhere => fun _ _ => false

theorem keeps_masterMoves_receiver {s s' : MasterSite} {e : MasterEvent} (h : MasterMoves P s e s') :
    Receiver.Keeps s.receiver s'.receiver := by
  cases h with
  | quiet _ hreceiver => exact hreceiver
  | handles _ hreceiver => exact hreceiver

theorem keeps_computeStep {c c' : ComputeNode} {e : ComputeEvent}
    (h : computeStep V c e = some c') : Receiver.Keeps c.receiver c'.receiver := by
  rcases e with ⟨now, stamps, draw, action⟩
  cases action with
  | receive q =>
      simp only [computeStep] at h
      split at h
      case isTrue =>
          cases receives_of_receive h with
          | quiet hreceiver => exact hreceiver
          | handles fields f cmd out hfields hpasses => exact hpasses.keeps
      case isFalse => cases h
  | resume i =>
      rw [(replied_resume h).receiver]
      exact .refl _

theorem took_mono {p : Place n m} {e : SiteEvent p} (hmoves : (protocol P L V).Moves S p e S')
    (h : took p (S.node p) q = true) : took p (S'.node p) q = true := by
  cases p with
  | master k =>
      exact noted_mono (keeps_masterMoves_receiver (masterMoves_of_step (masterStep_of_moves hmoves))) h
  | compute j => exact noted_mono (keeps_computeStep (computeStep_of_moves hmoves)) h
  | elsewhere => exact h

/-- A master counts a result for a packet that it has not noted before. -/
theorem tallies_counter (i : Fin n) (id : String) :
    (protocol P L V).Tallies (Allowed P L names) (isAbout .verificationResult id)
      (fun _ => Place.master i) took (fun S => counter id (Cloud.masters S i).master) where
  keeps := fun _ hmoves htook => took_mono hmoves htook
  step := by
    intro (S : Cloud n m) p e (S' : Cloud n m) hallowed hmoves
    by_cases hp : Place.master i = p
    · subst hp
      cases masterMoves_of_step (masterStep_of_moves hmoves) with
      | quiet hmaster =>
          exact .inl (Nat.le_of_eq (counter_acknowledged hmaster id))
      | @handles a msg hmaster _ hreaches hhandle =>
          have hsame := counter_acknowledged hmaster id
          rcases counter_handle hhandle id with hle | ⟨hle, hash, output, hmsg⟩
          · exact .inl (hle.trans (Nat.le_of_eq hsame))
          · refine .inr ⟨hle.trans (Nat.le_of_eq (by rw [hsame])), ?_⟩
            cases hreaches with
            | @packet q fields f cmd _ haction hchannel hfields hpasses hhandler =>
                cases (show msg = .verificationResult id hash output from hmsg)
                rcases noted_of_passes hfields hpasses with ⟨hnew, hnow, hcommand⟩
                refine ⟨q, ?_, ?_, rfl, hnew, hnow⟩
                · change q ∈ e.action.packet?
                  rw [haction]
                  rfl
                · cases reads_of_dataHandler hhandler with
                  | verificationResult _ _ htxid =>
                      rw [hpasses.fields "txid" (by decide)] at htxid
                      simp [isAbout, hcommand, hfields, htxid]
            | request haction hfields hcommand hhandler =>
                -- clients ask for executions
                cases (show msg = .verificationResult id hash output from hmsg)
                have hexecutes := hallowed.executes _ (by rw [haction]; exact hfields)
                cases hcommand.symm.trans hexecutes
                cases reads_of_dataHandler hhandler
            | cleanup => cases hmsg
            | closeBlock => cases hmsg
    · exact .inl (Nat.le_of_eq (by rw [Cloud.masters, Cloud.masters, hmoves.others _ hp]))

/-- Before a transaction may be committed, 14 results for it have been gossiped. -/
theorem results_of_commits {S₀ : Cloud n m} {es : List ((p : Place n m) × SiteEvent p)}
    (hstart : Start names S₀)
    (h : Trace (protocol P L V).next (Allowed P L names) S₀ es S) (i : Fin n) (id : String)
    (hcommits : S.commitsOf id i ≠ []) : 14 ≤ S.sent.countP (isAbout .verificationResult id) := by
  induction h with
  | nil =>
      have hview : (S₀.masters i).master.view id =
          { held := none, queued := [], responses := [], commits := [] } := hstart.unknown i id
      exact absurd (by rw [Cloud.commitsOf, hview]) hcommits
  | @snoc es S S' ev htrace hok hs ih =>
      rcases ev with ⟨p, e⟩
      have hmoves := Protocol.moves_of_next hs
      by_cases hsame : S'.commitsOf id i = S.commitsOf id i
      · rw [hsame] at hcommits
        rw [hmoves.sent, List.countP_append]
        exact (ih hcommits).trans (Nat.le_add_right _ _)
      · -- the commit is sent now
        by_cases hp : Place.master i = p
        · subst hp
          have hinit : counter id (S₀.masters i).master = 0 := by
            rw [counter, (unknown_iff.mp (hstart.unknown i id)).1]
            rfl
          have hcounter : 14 ≤ counter id (S'.masters i).master :=
            counter_of_commits (masterMoves_of_step (masterStep_of_moves hmoves)) hsame
          exact hcounter.trans
            (Protocol.tally_le (tallies_counter i id) hinit (.snoc htrace hok hs))
        · exact absurd (commitsOf_of_ne hmoves hp id) hsame

/-! ## One release for a commit -/

open Classical in
/-- The place that listens on the channel of a packet, when it is a compute node. -/
noncomputable def addressee (names : Names n m) (q : Packet) : Place n m :=
  if h : ∃ j, names.compute j = q.channel then .compute h.choose else .elsewhere

theorem addressee_eq (h : q.channel = names.compute j) : addressee names q = .compute j := by
  have hexists : ∃ j, names.compute j = q.channel := ⟨j, h.symm⟩
  rw [addressee, dif_pos hexists]
  exact congrArg _ (names.compute_injective (hexists.choose_spec.trans h))

theorem releases_of_ordinary {g : Gossip} (hcarries : q.Carries g) (hg : g.IsOrdinary) :
    releases id q = false := by
  cases g with
  | command => exact releases_of_command hcarries
  | text => exact hg.elim

theorem countP_releases_master {e : MasterEvent} {s s' : MasterSite} :
    (inEnvelopes s.master.nodeId e.env.now e.stamps (s.outgoing L s')).countP (releases id) = 0 := by
  rw [List.countP_eq_zero]
  intro q hq
  rcases mem_inEnvelopes hq with ⟨g, hg, hcarries, -⟩
  rcases List.mem_filterMap.mp hg with ⟨effect, -, hgossip⟩
  cases effect with
  | send | dhtPut => cases hgossip
  | gossip channel message =>
      cases hgossip
      rcases message.gossip_eq L with ⟨cmd, kv, hmessage, -⟩
      rw [hmessage] at hcarries
      rw [releases_of_command hcarries]
      exact Bool.false_ne_true

theorem countP_releases_outside {e : OutsideEvent} (hallowed : AllowedOutside e) :
    (inEnvelopes e.sender e.now e.stamps e.out).countP (releases id) = 0 := by
  rw [List.countP_eq_zero]
  intro q hq
  rcases mem_inEnvelopes hq with ⟨g, hg, hcarries, -⟩
  rw [releases_of_ordinary hcarries (hallowed.ordinary _ hg)]
  exact Bool.false_ne_true

theorem length_inEnvelopes_le (sender : String) (now : Int) (stamps : List Stamp)
    (out : List (String × Gossip)) : (inEnvelopes sender now stamps out).length ≤ out.length :=
  (List.length_filterMap_le _ _).trans (Nat.le_of_eq List.length_zipIdx)

/-- Of the messages of a compute node only the one for a commit releases state changes. -/
theorem countP_releases_of_replies (sender : String) (now : Int) (stamps : List Stamp) {d : Draw}
    {committed : Option String} {out : List (String × Gossip)} (hid : IsGuid id)
    (huuid : IsUuid d.uuid) (hcommitted : ∀ txId ∈ committed, '|' ∉ txId.toList)
    (h : Replies d committed out) :
    (inEnvelopes sender now stamps out).countP (releases id) = 0 ∨
      (inEnvelopes sender now stamps out).countP (releases id) ≤ 1 ∧ committed = some id := by
  have hnone : ∀ {channel : String} {g : Gossip},
      (∀ q : Packet, q.Carries g → releases id q = false) →
      (inEnvelopes sender now stamps [(channel, g)]).countP (releases id) = 0 := by
    intro channel g hg
    rw [List.countP_eq_zero]
    intro q hq
    rcases mem_inEnvelopes hq with ⟨g', hg', hcarries, -⟩
    cases List.mem_singleton.mp hg'
    rw [hg q hcarries]
    exact Bool.false_ne_true
  cases h with
  | nothing => exact .inl rfl
  -- a command begins with its number, and a query with its own id
  | ordinary _ => exact .inl (hnone fun q hq => releases_of_command hq)
  | query channel input => exact .inl (hnone fun q hq => releases_of_query hid huuid hq)
  | @release txId channel cmds hsome =>
      by_cases hsame : txId = id
      · subst hsame
        have hlength := length_inEnvelopes_le sender now stamps
          [(channel, .text ("txid:" ++ txId ++ "|" ++ cmds))]
        exact .inr ⟨List.countP_le_length.trans hlength, hsome⟩
      · refine .inl (hnone fun q hq => ?_)
        rw [← Bool.not_eq_true]
        exact fun hreleases => hsame (releases_text (isGuid_bar hid) (hcommitted txId hsome)
          (Option.some.inj hq).symm hreleases)

/-- What a step of a compute node sends, and the commit behind a release. -/
theorem replies_computeStep {c c' : ComputeNode} {e : ComputeEvent}
    (h : computeStep V c e = some c') :
    ∃ committed out, c'.sent = c.sent ++ out ∧ Replies e.draw committed out ∧
      ∀ txId ∈ committed, ∃ q fields f, e.action = .receive q ∧ q.channel = c.receiver.nodeId ∧
        q.fields = some fields ∧ Receiver.Passes c.receiver fields c'.receiver .canCommit f ∧
        f.get "txid" = txId := by
  rcases e with ⟨now, stamps, draw, action⟩
  cases action with
  | receive q =>
      simp only [computeStep] at h
      split at h
      case isTrue hchannel =>
          cases receives_of_receive h with
          | quiet _ hsent => exact ⟨none, [], by rw [hsent, List.append_nil], .nothing, by simp⟩
          | handles fields f cmd out hfields hpasses hsent hreplies =>
              refine ⟨_, out, hsent, hreplies, ?_⟩
              -- only a commit has a transaction to release
              intro txId htxId
              split at htxId
              case isTrue hcmd =>
                  subst hcmd
                  exact ⟨q, fields, f, rfl, hchannel, hfields, hpasses, Option.some.inj htxId⟩
              case isFalse => cases htxId
      case isFalse => cases h
  -- a script that goes on commits nothing
  | resume i =>
      rcases (replied_resume h).sent with ⟨out, hsent, hreplies⟩
      exact ⟨none, out, hsent, hreplies, by simp⟩

/-- The commit that reaches a compute node is the packet that it takes. -/
theorem commits_of_passes (h : Settled P L V names S) (hq : q ∈ S.sent) {r' : Receiver}
    {fields f : FieldValueMap} (hchannel : q.channel = names.compute j)
    (hfields : q.fields = some fields)
    (hpasses : Receiver.Passes (S.computes j).receiver fields r' .canCommit f) :
    commits names (f.get "txid") q = true ∧ IsGuid (f.get "txid") := by
  have hnode : names.IsNode q.channel := .inr (.inr (.inr ⟨j, hchannel.symm⟩))
  cases arrival_of_passes (h.packets q hq) hnode hfields hpasses with
  | master message kv hmessage _ _ harrived =>
      cases message with
      -- the id is the one of a request, so it arrives as it is
      | canCommit txid sid tid =>
          cases hmessage
          have htxid := harrived "txid" (by decide)
          have hread : f.at? "txid" = some (receivedValue txid) := htxid
          have hget : f.get "txid" = receivedValue txid := by rw [FieldValueMap.get, hread]; rfl
          rw [hpasses.fields "txid" (by decide)] at hread
          have hcommits : commits names (receivedValue txid) q = true := by
            simp only [commits, isAbout, (noted_of_passes hfields hpasses).2.2, hfields,
              Option.bind_some, hread, Bool.and_eq_true, decide_eq_true_eq, and_self, and_true]
            exact ⟨j, hchannel.symm⟩
          rw [hget]
          rcases requested_of_commits h hq hcommits with ⟨-, -, hguid, -⟩
          exact ⟨hcommits, hguid⟩
      | txNotification | codeDelivery | exception | closeBlock => cases hmessage
  -- no ordinary message is a commit
  | ordinary kv hordinary => exact absurd (by decide) hordinary.1

/-- Every release takes a commit that was addressed to the node. -/
theorem tallies_releases (hid : IsGuid id) :
    (protocol P L V).Tallies (fun S e => Allowed P L names S e ∧ Settled P L V names S)
      (commits names id) (addressee names) took (fun S => S.sent.countP (releases id)) where
  keeps := fun _ hmoves htook => took_mono hmoves htook
  step := by
    intro (S : Cloud n m) p e (S' : Cloud n m) ⟨hallowed, hsettled⟩ hmoves
    rw [hmoves.sent, List.countP_append]
    cases p with
    -- masters and others release nothing
    | master k => exact .inl (Nat.le_of_eq (congrArg _ countP_releases_master))
    | elsewhere => exact .inl (Nat.le_of_eq (congrArg _ (countP_releases_outside hallowed)))
    | compute j =>
        have hs : ComputeSound V names S j (S.computes j) := hsettled.sites (.compute j)
        rcases replies_computeStep (computeStep_of_moves hmoves) with
          ⟨committed, out, hsent, hreplies, hcause⟩
        have hout : computeOutgoing (S.computes j) (S'.computes j) = out := by
          rw [computeOutgoing, hsent, List.drop_left]
        have hcommitted : ∀ txId ∈ committed, '|' ∉ txId.toList := by
          intro txId htxId
          rcases hcause txId htxId with ⟨q, fields, f, haction, hchannel, hfields, hpasses, rfl⟩
          have hq : q ∈ S.sent := hmoves.taken q (congrArg ComputeAction.packet? haction)
          exact isGuid_bar
            (commits_of_passes hsettled hq (hchannel.trans hs.receiver) hfields hpasses).2
        have hcount := countP_releases_of_replies (S.computes j).receiver.nodeId e.now e.stamps hid
          hallowed.uuid hcommitted hreplies
        rw [← hout] at hcount
        -- one release for the commit that the node takes now, which it had not noted before
        rcases hcount with hnone | ⟨hone, hsome⟩
        · exact .inl (Nat.le_of_eq (congrArg _ hnone))
        · rcases hcause id hsome with ⟨q, fields, f, haction, hchannel, hfields, hpasses, rfl⟩
          have htakes : q ∈ e.action.packet? := congrArg ComputeAction.packet? haction
          have hnode := hchannel.trans hs.receiver
          rcases noted_of_passes hfields hpasses with ⟨hnew, hnow, -⟩
          exact .inr ⟨Nat.add_le_add_left hone _, q, htakes,
            (commits_of_passes hsettled (hmoves.taken q htakes) hnode hfields hpasses).1,
            addressee_eq hnode, hnew, hnow⟩

/-! ## The run behind a release -/

/-- The state changes in a packet are those of a run, on some compute node. -/
def Cloud.Released (V : Processor) (names : Names n m) (S : Cloud n m) (id : String) (q : Packet) :
    Prop :=
  ∃ j stateChangeCmds, q.msg = "txid:" ++ id ++ "|" ++ stateChangeCmds ∧
    Ran V (S.Genuine names) names.IsStorage (S.computes j).sent id stateChangeCmds

theorem sent_subset_of_moves {p : Place n m} {e : SiteEvent p}
    (hmoves : (protocol P L V).Moves S p e S') (j : Fin m) :
    (S.computes j).sent ⊆ (S'.computes j).sent := by
  by_cases hp : Place.compute j = p
  · subst hp
    rcases replies_computeStep (computeStep_of_moves hmoves) with ⟨committed, out, hsent, -⟩
    rw [hsent]
    exact List.subset_append_left _ _
  · rw [Cloud.computes, Cloud.computes, hmoves.others _ hp]
    exact fun _ => id

/-- The id of a transaction that was run is one that was drawn. -/
theorem isGuid_of_ran (h : Settled P L V names S) {sent : List (String × Gossip)}
    {txId stateChangeCmds : String}
    (hran : Ran V (S.Genuine names) names.IsStorage sent txId stateChangeCmds) : IsGuid txId := by
  rcases hran.exists_run with ⟨rq, code, result, hasked, rfl, -⟩
  rcases hasked.transaction with ⟨tx, ⟨i, r, hr, hsame⟩, htxId, -⟩
  have hsound : MasterSound P names S i (S.masters i) := h.sites (.master i)
  have hguid : IsGuid tx.txId := hsame.txId ▸ (hsound.requests r hr).1
  rw [htxId, receivedValue_of_isGuid hguid]
  exact hguid

/-- The state changes that a compute node releases are those of a run. -/
theorem released_of_compute {e : ComputeEvent} (hsettled' : Settled P L V names S')
    (hid : IsGuid id)
    (hq : q ∈ inEnvelopes (S.computes j).receiver.nodeId e.now e.stamps
      (computeOutgoing (S.computes j) (S'.computes j)))
    (hreleases : releases id q = true) : S'.Released V names id q := by
  have hsound : ComputeSound V names S' j (S'.computes j) := hsettled'.sites (.compute j)
  rcases mem_inEnvelopes hq with ⟨g, hg, hcarries, -⟩
  cases hsound.provenance.sent _ (List.mem_of_mem_drop hg) with
  | ordinary hordinary =>
      rw [releases_of_ordinary hcarries hordinary] at hreleases
      cases hreleases
  | query _ huuid =>
      rw [releases_of_query hid huuid hcarries] at hreleases
      cases hreleases
  | @release _ txId stateChangeCmds _ hran =>
      have hmsg : q.msg = "txid:" ++ txId ++ "|" ++ stateChangeCmds := (Option.some.inj hcarries).symm
      have hsame := releases_text (isGuid_bar hid) (isGuid_bar (isGuid_of_ran hsettled' hran)) hmsg
        hreleases
      subst hsame
      exact ⟨j, stateChangeCmds, hmsg, hran⟩

theorem released_step {p : Place n m} {e : SiteEvent p} (hsettled : Settled P L V names S)
    (hallowed : Allowed P L names S ⟨p, e⟩) (hmoves : (protocol P L V).Moves S p e S')
    (hid : IsGuid id) (hreleased : ∀ q ∈ S.sent, releases id q = true → S.Released V names id q) :
    ∀ q ∈ S'.sent, releases id q = true → S'.Released V names id q := by
  intro q hq hreleases
  rw [hmoves.sent] at hq
  rcases List.mem_append.mp hq with hold | hnew
  · rcases hreleased q hold hreleases with ⟨j, stateChangeCmds, hmsg, hran⟩
    exact ⟨j, stateChangeCmds, hmsg,
      hran.mono (extends_of_moves hmoves).genuine (sent_subset_of_moves hmoves j)⟩
  · cases p with
    | master k => exact absurd hreleases (List.countP_eq_zero.mp countP_releases_master q hnew)
    | compute j =>
        exact released_of_compute (settled_step hsettled hallowed hmoves) hid hnew hreleases
    | elsewhere =>
        exact absurd hreleases (List.countP_eq_zero.mp (countP_releases_outside hallowed) q hnew)

/-! ## The results -/

/-- The releases are no more than the commits, and these no more than one. -/
theorem countP_releases_le_one {S₀ : Cloud n m} {es : List ((p : Place n m) × SiteEvent p)}
    (hstart : S₀.sent = []) (h : Trace (protocol P L V).next
      (fun S e => Allowed P L names S e ∧ Settled P L V names S) S₀ es S)
    (hsettled : Settled P L V names S) (hid : IsGuid id) : S.sent.countP (releases id) ≤ 1 :=
  calc S.sent.countP (releases id)
      ≤ S.sent.countP (commits names id) :=
        Protocol.tally_le (tallies_releases hid) (by simp [hstart]) h
    _ ≤ ∑ i, (S.commitsOf id i).length := hsettled.counted id
    _ ≤ 1 := sum_commits_le_one hsettled id

/-- In every run, at most one message with the state changes of a transaction is sent, by all
compute nodes together. -/
theorem released_at_most_once {S₀ : Cloud n m} {es : List ((p : Place n m) × SiteEvent p)}
    (hstart : Start names S₀)
    (h : Trace (protocol P L V).next (Allowed P L names) S₀ es S) (hid : IsGuid id) :
    S.sent.countP (releases id) ≤ 1 := by
  rcases settled_run hstart h with ⟨htrace, hsettled⟩
  exact countP_releases_le_one hstart.sent htrace hsettled hid

theorem Sample.released_of_check {S : Cloud 2 1} (h : Sample.check S = true) :
    ∃ q ∈ S.sent, releases "tx" q = true := by
  simp only [Sample.check, Bool.and_eq_true] at h
  exact ⟨Sample.release, of_decide_eq_true h.1.1, by decide⟩

theorem released_sample : ∃ S : Cloud 2 1, S.sent.countP (releases "tx") = 1 := by
  rcases Sample.run_choices with ⟨es, S, htrace, hcheck⟩
  have hpos : 0 < S.sent.countP (releases "tx") :=
    List.countP_pos_iff.mpr (Sample.released_of_check hcheck)
  have hle := released_at_most_once Sample.start_start htrace (by decide : IsGuid "tx")
  exact ⟨S, Nat.le_antisymm hle hpos⟩

end DecentralizedCloud.System

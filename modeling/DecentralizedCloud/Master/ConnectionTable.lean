import DecentralizedCloud.Common.CommandType
import DecentralizedCloud.Common.Message
import DecentralizedCloud.Lib.Trace
import DecentralizedCloud.Master.State
import Mathlib.Logic.Function.Basic

/-!
# The connection table

`WebSocketServer` registers the handle of a socket under the key of its first
`connectionRequest`, looks a key up when it has something to send, and takes an
entry out when a socket closes. It does not hold which keys a handle has: the
table is searched for the handle, and the first key found counts.

The table is right (`Tracks`) when it has open handles only and the last handle
that asked for a key, unless it has closed, is found under it. It stays right
as long as nobody asks for a key of another handle and no handle closes with
several keys, or with none while another one uses the empty key
(`tracks_iff`). A client that reconnects before its old socket closes does the
first of these.
-/

namespace DecentralizedCloud

open Machine

variable {H : Type}

/-- An `unordered_map` from keys to handles. -/
abbrev ConnectionsMap (H : Type) := List (String × H)

namespace ConnectionsMap

/-- `getDataFromKey`: `none` is the exception. -/
def getDataFromKey (connections : ConnectionsMap H) (key : String) : Option H :=
  connections.lookup key

def exists_ (connections : ConnectionsMap H) (key : String) : Bool :=
  (connections.getDataFromKey key).isSome

/-- `entries` is the order in which the loop meets the entries. The pointer of a handle that
has closed is null and equals no pointer of an open one. -/
def getKeyFromHdl [DecidableEq H] (entries : ConnectionsMap H) (hdl : H) : String :=
  ((entries.find? fun entry => entry.2 = hdl).map Prod.fst).getD ""

def addConnection (connections : ConnectionsMap H) (key : String) (hdl : H) : ConnectionsMap H :=
  (key, hdl) :: connections

def erase_ (connections : ConnectionsMap H) (key : String) : ConnectionsMap H :=
  connections.filter fun entry => entry.1 ≠ key

variable [DecidableEq H]

/-- The table after `onClose`. -/
def onClose (connections entries : ConnectionsMap H) (hdl : H) : ConnectionsMap H :=
  connections.erase_ (getKeyFromHdl entries hdl)

/-- The table after `onMessage`, and the key under which `processIncomingData` is given the
payload, if it is. -/
def onMessage (connections entries : ConnectionsMap H) (hdl : H) (data : String) :
    ConnectionsMap H × Option String :=
  match getFieldsAndValues data with
  | none => (connections, none)
  | some theFields =>
      if CommandType.ofCode (atoi (theFields.get "c")) = some .connectionRequest then
        match theFields.at? "k" with
        | none => (connections, none)
        | some nodeKey =>
            if connections.exists_ nodeKey then (connections, none)
            else (connections.addConnection nodeKey hdl, none)
      else
        let nodeKey := getKeyFromHdl entries hdl
        -- a handle without a key is refused
        if nodeKey.isEmpty then (connections, none) else (connections, some nodeKey)

end ConnectionsMap

/-- The key that a payload asks for. -/
def requestedKey (data : String) : Option String :=
  (getFieldsAndValues data).bind fun theFields =>
    if CommandType.ofCode (atoi (theFields.get "c")) = some .connectionRequest then
      theFields.at? "k"
    else none

/-! ## The server and its sockets -/

inductive SocketPhase where
  | unused | opened | closed
deriving DecidableEq

/-- What the sockets of a server do. With a handle that is looked for comes the order in which
the table happens to be traversed. -/
inductive SocketEvent (H : Type) where
  | onOpen (hdl : H)
  | onMessage (hdl : H) (data : String) (entries : ConnectionsMap H)
  | onClose (hdl : H) (entries : ConnectionsMap H)

structure Sockets (H : Type) where
  /-- `m_connections` -/
  connections : ConnectionsMap H
  phase : H → SocketPhase
  /-- the handle of the last `connectionRequest` for a key -/
  requester : String → Option H

namespace Sockets

/-- No socket has been opened. -/
def initial : Sockets H where
  connections := []
  phase _ := .unused
  requester _ := none

/-- One event. Handles are used once, and only open ones send and close. -/
def step [DecidableEq H] : Step (Sockets H) (SocketEvent H) := fun s e =>
  match e with
  | .onOpen hdl =>
      if s.phase hdl = .unused then some { s with phase := Function.update s.phase hdl .opened }
      else none
  | .onMessage hdl data entries =>
      if s.phase hdl = .opened ∧ entries.Perm s.connections then
        some { s with
          connections := (s.connections.onMessage entries hdl data).1
          requester := match requestedKey data with
            | some key => Function.update s.requester key (some hdl)
            | none => s.requester }
      else none
  | .onClose hdl entries =>
      if s.phase hdl = .opened ∧ entries.Perm s.connections then
        some { s with
          connections := s.connections.onClose entries hdl
          phase := Function.update s.phase hdl .closed }
      else none

/-- The table has open handles only, and every last requester that is open. -/
structure Tracks (s : Sockets H) : Prop where
  isOpen : ∀ entry ∈ s.connections, s.phase entry.2 = .opened
  reaches : ∀ key hdl, s.requester key = some hdl → s.phase hdl = .opened →
    s.connections.getDataFromKey key = some hdl

/-- A key is asked for by the handle that has it, if any, and a handle that closes has one
key, or none and nobody has the empty one. -/
def Orderly (s : Sockets H) : SocketEvent H → Prop
  | .onOpen _ => True
  | .onMessage hdl data _ =>
      ∀ key ∈ requestedKey data, ∀ hdl' ∈ s.connections.getDataFromKey key, hdl' = hdl
  | .onClose hdl _ =>
      (∀ key key', s.connections.getDataFromKey key = some hdl →
        s.connections.getDataFromKey key' = some hdl → key = key') ∧
      ((∀ key, s.connections.getDataFromKey key ≠ some hdl) →
        s.connections.getDataFromKey "" = none)

/-- The server that the handlers of a master node send with. -/
def wsServer (s : Sockets H) : WebSocketServer where
  running := true
  connections key := (s.connections.getDataFromKey key).map fun hdl =>
    if s.phase hdl = .opened then .usable else .expired

end Sockets

/-! ## The operations on the table -/

namespace ConnectionsMap

variable {connections entries : ConnectionsMap H} {key key' : String} {hdl hdl' : H}

theorem mem_of_getDataFromKey (h : connections.getDataFromKey key = some hdl) :
    (key, hdl) ∈ connections := by
  rcases List.lookup_eq_some_iff.mp h with ⟨before, behind, rfl, -⟩
  simp

theorem exists_getDataFromKey (h : (key, hdl) ∈ connections) :
    ∃ hdl', connections.getDataFromKey key = some hdl' := by
  rw [← Option.ne_none_iff_exists', getDataFromKey, Ne, List.lookup_eq_none_iff]
  intro hall
  simpa using hall (key, hdl) h

theorem getDataFromKey_erase (hne : key' ≠ key) :
    (connections.erase_ key).getDataFromKey key' = connections.getDataFromKey key' := by
  unfold getDataFromKey erase_
  induction connections with
  | nil => rfl
  | cons entry connections ih =>
      rcases entry with ⟨k, hdl⟩
      by_cases hk : k = key
      · subst hk
        have hkeys : (key' == k) = false := by simpa using hne
        rw [List.filter_cons_of_neg (by simp), List.lookup_cons, hkeys, ih]
      · rw [List.filter_cons_of_pos (by simpa using hk), List.lookup_cons, List.lookup_cons, ih]

theorem mem_erase {entry : String × H} :
    entry ∈ connections.erase_ key ↔ entry ∈ connections ∧ entry.1 ≠ key := by
  simp [erase_]

variable [DecidableEq H]

/-- What is found for a handle: one of its keys, or the empty one if it has none. -/
theorem getKeyFromHdl_spec (hperm : entries.Perm connections) (hdl : H) :
    (getKeyFromHdl entries hdl, hdl) ∈ connections ∨
      getKeyFromHdl entries hdl = "" ∧ ∀ key, (key, hdl) ∉ connections := by
  unfold getKeyFromHdl
  cases hfind : entries.find? fun entry => entry.2 = hdl with
  | none =>
      right
      refine ⟨rfl, ?_⟩
      intro key hmem
      simpa using List.find?_eq_none.mp hfind (key, hdl) (hperm.mem_iff.mpr hmem)
  | some entry =>
      left
      have hhdl : entry.2 = hdl := by simpa using List.find?_some hfind
      subst hhdl
      exact hperm.mem_iff.mp (List.mem_of_find?_eq_some hfind)

/-- Only a request for a key changes the table, and only if the key is not in it. -/
theorem onMessage_fst (entries : ConnectionsMap H) (hdl : H) (data : String) :
    (connections.onMessage entries hdl data).1 =
      match requestedKey data with
      | none => connections
      | some key =>
          if connections.exists_ key then connections else connections.addConnection key hdl := by
  unfold onMessage requestedKey
  cases getFieldsAndValues data with
  | none => rfl
  | some theFields =>
      simp only [Option.bind_some]
      split
      case isTrue =>
          cases theFields.at? "k" with
          | none => rfl
          | some key =>
              dsimp only
              split <;> rfl
      case isFalse =>
          split <;> rfl

end ConnectionsMap

/-! ## One event -/

namespace Sockets

open ConnectionsMap

variable {s s' : Sockets H} {e : SocketEvent H} {es : List (SocketEvent H)}

/-- With a right table, what is sent to a key goes out while the last handle that asked for it
is open. -/
theorem sent_of_tracks (h : Tracks s) {key : String} {hdl : H}
    (hreq : s.requester key = some hdl) (hopen : s.phase hdl = .opened) :
    s.wsServer.send key = .sent := by
  simp [WebSocketServer.send, wsServer, h.reaches key hdl hreq hopen, hopen]

/-- A right table has the last requesters and nothing else. -/
structure Exact (s : Sockets H) : Prop extends Tracks s where
  requested : ∀ entry ∈ s.connections, s.requester entry.1 = some entry.2
  used : ∀ key hdl, s.requester key = some hdl → s.phase hdl ≠ .unused

theorem Exact.getDataFromKey_iff (h : Exact s) {key : String} {hdl : H} :
    s.connections.getDataFromKey key = some hdl ↔ (key, hdl) ∈ s.connections := by
  constructor
  · exact mem_of_getDataFromKey
  · intro hmem
    exact h.reaches key hdl (h.requested _ hmem) (h.isOpen _ hmem)

theorem exact_initial : Exact (initial : Sockets H) where
  isOpen := nofun
  reaches := nofun
  requested := nofun
  used := nofun

/-- A request of the handle that has the key, or for a key that nobody has. -/
theorem exact_request (h : Exact s) {key : String} {hdl : H} (hopened : s.phase hdl = .opened)
    (hfree : ∀ hdl' ∈ s.connections.getDataFromKey key, hdl' = hdl) :
    Exact { s with
      connections :=
        if s.connections.exists_ key then s.connections else s.connections.addConnection key hdl
      requester := Function.update s.requester key (some hdl) } := by
  cases hkey : s.connections.getDataFromKey key with
  | some hdl' =>
      -- the key is already the handle's, and nothing changes
      cases hfree hdl' hkey
      have hrequester : Function.update s.requester key (some hdl) = s.requester :=
        Function.update_eq_self_iff.mpr (h.requested _ (mem_of_getDataFromKey hkey)).symm
      rw [exists_, hkey, hrequester]
      exact h
  | none =>
      have hnew : ∀ entry ∈ s.connections, entry.1 ≠ key := by
        rintro entry hmem rfl
        rcases exists_getDataFromKey hmem with ⟨hdl', hhdl'⟩
        rw [hkey] at hhdl'
        cases hhdl'
      rw [exists_, hkey, Option.isSome_none, if_neg Bool.false_ne_true]
      constructor
      constructor
      · rintro entry (_ | ⟨_, hmem⟩)
        · exact hopened
        · exact h.isOpen entry hmem
      · intro key' hdl' hreq hopen
        show List.lookup key' ((key, hdl) :: s.connections) = some hdl'
        rw [List.lookup_cons]
        by_cases heq : key' = key
        · subst heq
          simpa using hreq
        · have hkeys : (key' == key) = false := by simpa using heq
          rw [hkeys]
          exact h.reaches key' hdl' (by simpa [heq] using hreq) hopen
      · rintro entry (_ | ⟨_, hmem⟩)
        · simp
        · simpa [hnew entry hmem] using h.requested entry hmem
      · intro key' hdl' hreq
        by_cases heq : key' = key
        · subst heq
          have hhdl : hdl = hdl' := by simpa using hreq
          subst hhdl
          exact fun hunused => by simp [hopened] at hunused
        · exact h.used key' hdl' (by simpa [heq] using hreq)

variable [DecidableEq H]

/-- A socket that opens is not in the table, which stays exact. -/
theorem exact_onOpen (h : Exact s) {hdl : H} (hunused : s.phase hdl = .unused) :
    Exact { s with phase := Function.update s.phase hdl .opened } where
  isOpen entry hmem := by
    have hopen := h.isOpen entry hmem
    by_cases heq : entry.2 = hdl
    · simp [heq]
    · simpa [heq] using hopen
  reaches key hdl' hreq hopen := by
    have hne : hdl' ≠ hdl := by
      rintro rfl
      exact h.used key hdl' hreq hunused
    exact h.reaches key hdl' hreq (by simpa [hne] using hopen)
  requested := h.requested
  used key hdl' hreq := by
    by_cases heq : hdl' = hdl
    · simp [heq]
    · simpa [heq] using h.used key hdl' hreq

/-- The entry that is taken out is the only one of its handle and of no other. -/
theorem exact_onClose (h : Exact s) {key : String} {hdl : H}
    (honly : ∀ key', (key', hdl) ∈ s.connections → key' = key)
    (hown : ∀ hdl' ∈ s.connections.getDataFromKey key, hdl' = hdl) :
    Exact { s with
      connections := s.connections.erase_ key
      phase := Function.update s.phase hdl .closed } := by
  constructor
  constructor
  · rintro ⟨key', hdl'⟩ hmem
    rcases mem_erase.mp hmem with ⟨hin, hkey⟩
    have hne : hdl' ≠ hdl := by
      rintro rfl
      exact hkey (honly key' hin)
    -- no other handle was closed
    simpa [hne] using h.isOpen _ hin
  · intro key' hdl' hreq hopen
    have hne : hdl' ≠ hdl := by
      rintro rfl
      simp at hopen
    have hfound := h.reaches key' hdl' hreq (by simpa [hne] using hopen)
    -- an open handle has an entry under another key
    have hkey : key' ≠ key := by
      rintro rfl
      exact hne (hown hdl' hfound)
    rw [getDataFromKey_erase hkey]
    exact hfound
  · intro entry hmem
    exact h.requested entry (mem_erase.mp hmem).1
  · intro key' hdl' hreq
    by_cases heq : hdl' = hdl
    · simp [heq]
    · simpa [heq] using h.used key' hdl' hreq

/-- What `Orderly` says of a handle that closes, about the key that is taken out. -/
theorem orderly_onClose (h : Exact s) {hdl : H} {entries : ConnectionsMap H}
    (hperm : entries.Perm s.connections) (hok : Orderly s (.onClose hdl entries)) :
    (∀ key', (key', hdl) ∈ s.connections → key' = getKeyFromHdl entries hdl) ∧
      ∀ hdl' ∈ s.connections.getDataFromKey (getKeyFromHdl entries hdl), hdl' = hdl := by
  rcases hok with ⟨hone, hnone⟩
  rcases getKeyFromHdl_spec hperm hdl with hmem | ⟨hkey, hall⟩
  · constructor
    · intro key' hmem'
      exact hone _ _ (h.getDataFromKey_iff.mpr hmem') (h.getDataFromKey_iff.mpr hmem)
    · intro hdl' hfound
      rw [h.getDataFromKey_iff.mpr hmem] at hfound
      exact (Option.some.inj hfound).symm
  · constructor
    · intro key' hmem'
      exact absurd hmem' (hall key')
    · intro hdl' hfound
      rw [hkey, hnone fun key hkey => hall key (mem_of_getDataFromKey hkey)] at hfound
      cases hfound

/-- Every orderly event keeps the table exact. -/
theorem exact_step (h : Exact s) (hok : Orderly s e) (hstep : step s e = some s') : Exact s' := by
  cases e with
  | onOpen hdl =>
      simp only [step] at hstep
      split at hstep
      case isTrue hunused =>
          cases hstep
          exact exact_onOpen h hunused
      case isFalse => cases hstep
  | onMessage hdl data entries =>
      simp only [step, onMessage_fst] at hstep
      split at hstep
      case isTrue hopened =>
          cases hstep
          cases hkey : requestedKey data with
          | none => exact h
          | some key => exact exact_request h hopened.1 (hok key hkey)
      case isFalse => cases hstep
  | onClose hdl entries =>
      simp only [step] at hstep
      split at hstep
      case isTrue hopened =>
          cases hstep
          rcases orderly_onClose h hopened.2 hok with ⟨honly, hown⟩
          exact exact_onClose h honly hown
      case isFalse => cases hstep

/-- A step that is not orderly leaves a wrong table. -/
theorem orderly_of_tracks (h : Exact s) (hstep : step s e = some s') (htracks : Tracks s') :
    Orderly s e := by
  cases e with
  | onOpen hdl => trivial
  | onMessage hdl data entries =>
      intro key hkey hdl' hfound
      simp only [step, onMessage_fst] at hstep
      split at hstep
      case isTrue hopened =>
          cases hstep
          have hreach := htracks.reaches key hdl (by simp [Option.mem_def.mp hkey]) hopened.1
          simp only [Option.mem_def.mp hkey, exists_, Option.mem_def.mp hfound,
            Option.isSome_some, if_true, Option.some.injEq] at hreach
          exact hreach
      case isFalse => cases hstep
  | onClose hdl entries =>
      simp only [step] at hstep
      split at hstep
      case isFalse => cases hstep
      case isTrue hopened =>
          cases hstep
          have hspec := getKeyFromHdl_spec hopened.2 hdl
          -- an entry of the handle that stays would be one of a closed handle
          have hgone : ∀ key, s.connections.getDataFromKey key = some hdl →
              key = getKeyFromHdl entries hdl := by
            intro key hkey
            by_contra hne
            have hclosed := htracks.isOpen (key, hdl)
              (mem_erase.mpr ⟨mem_of_getDataFromKey hkey, hne⟩)
            simp at hclosed
          constructor
          · intro key key' hkey hkey'
            rw [hgone key hkey, hgone key' hkey']
          · intro hnone
            rcases hspec with hmem | ⟨hempty, -⟩
            · exact absurd (h.getDataFromKey_iff.mpr hmem) (hnone _)
            · rw [Option.eq_none_iff_forall_ne_some]
              intro hdl' hfound
              have hne : hdl' ≠ hdl := by
                rintro rfl
                exact hnone "" hfound
              have hmem := mem_of_getDataFromKey hfound
              have hreach := htracks.reaches "" hdl' (h.requested _ hmem)
                (by simpa [hne] using h.isOpen _ hmem)
              exact (mem_erase.mp (mem_of_getDataFromKey hreach)).2 hempty.symm

/-! ## Runs -/

theorem exact_trace (h : Trace step Orderly initial es s) : Exact s := by
  refine h.invariant (fun _ s => Exact s) exact_initial ?_
  intro _ s e s' hexact hok hstep
  exact exact_step hexact hok hstep

/-- The table is right in all states of a run if and only if all its steps are orderly. -/
theorem tracks_iff (h : Run step initial es s) :
    (∀ before behind t, es = before ++ behind → Run step initial before t → Tracks t) ↔
      Trace step Orderly initial es s := by
  constructor
  · intro hall
    induction h with
    | nil => exact .nil
    | @snoc es t u e hrun _ hstep ih =>
        have htrace := ih fun before behind t heq =>
          hall before (behind ++ [e]) t (by rw [heq, List.append_assoc])
        have htracks := hall (es ++ [e]) [] u (by simp) (.snoc hrun trivial hstep)
        exact .snoc htrace (orderly_of_tracks (exact_trace htrace) hstep htracks) hstep
  · intro htrace before behind t heq hrun
    rcases htrace.split heq with ⟨t', hbefore, -⟩
    rw [← hbefore.unique hrun]
    exact (exact_trace hbefore).toTracks

end Sockets

namespace Sample

/-- A client asks for a key, asks again over a new socket, and its old socket closes. -/
def reconnect : List (SocketEvent Nat) :=
  [.onOpen 1, .onMessage 1 "c:1|k:a" [], .onOpen 2, .onMessage 2 "c:1|k:a" [("a", 1)],
    .onClose 1 [("a", 1)]]

/-- The old socket closes first. -/
def closeFirst : List (SocketEvent Nat) :=
  [.onOpen 1, .onMessage 1 "c:1|k:a" [], .onClose 1 [("a", 1)], .onOpen 2,
    .onMessage 2 "c:1|k:a" []]

end Sample

namespace Sockets

/-- A client that closes its old connection first is tracked. -/
theorem tracks_iff_closeFirst :
    ∃ s : Sockets Nat, Run step initial Sample.closeFirst s ∧
      s.connections.getDataFromKey "a" = some 2 ∧
      ∀ before behind t, Sample.closeFirst = before ++ behind → Run step initial before t →
        Tracks t := by
  obtain ⟨s, htrace, hreach⟩ : ∃ s : Sockets Nat,
      Trace step Orderly initial Sample.closeFirst s ∧
        s.connections.getDataFromKey "a" = some 2 := by
    refine ⟨_, .cons trivial rfl (.cons ?_ rfl (.cons ?_ rfl (.cons trivial rfl
      (.cons ?_ rfl .nil)))), rfl⟩
    · rintro key - hdl' ⟨⟩
    · constructor
      · intro key key' hkey hkey'
        have hmem : (key, 1) ∈ [("a", 1)] := ConnectionsMap.mem_of_getDataFromKey hkey
        have hmem' : (key', 1) ∈ [("a", 1)] := ConnectionsMap.mem_of_getDataFromKey hkey'
        simp only [List.mem_singleton, Prod.mk.injEq, and_true] at hmem hmem'
        rw [hmem, hmem']
      · intro hnone
        exact absurd rfl (hnone "a")
    · rintro key - hdl' ⟨⟩
  exact ⟨s, htrace.run, hreach, (tracks_iff htrace.run).mpr htrace⟩

/-- After a reconnect the open socket cannot be reached. -/
theorem reconnected_lost :
    ∃ s : Sockets Nat, Run step initial Sample.reconnect s ∧ s.requester "a" = some 2 ∧
      s.phase 2 = .opened ∧ s.wsServer.send "a" = .raised ∧ ¬ Tracks s := by
  refine ⟨_, .cons trivial rfl (.cons trivial rfl (.cons trivial rfl (.cons trivial rfl
    (.cons trivial rfl .nil)))), rfl, rfl, rfl, ?_⟩
  intro htracks
  cases htracks.reaches "a" 2 rfl rfl

end Sockets

end DecentralizedCloud

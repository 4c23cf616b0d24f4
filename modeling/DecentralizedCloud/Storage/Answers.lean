import DecentralizedCloud.Storage.Footprint
import DecentralizedCloud.Storage.Objects

/-!
# What the commands put out

The answers that a program sends come from its calls of `send`; all other steps are silent.
The lemmas take a program apart into the steps before an answer, the answer, and a silent
rest.
-/

namespace DecentralizedCloud.Storage

open Schedule

/-- All answers to the client meet with the same fate. -/
def answerEnv (guid : Guid) (status : Delivery) : CommandEnv :=
  { guid, delivery := fun _ => status }

def Response.isException : Response → Bool
  | .client _ j => (j.get? "error").isSome
  | .node _ cmd _ _ _ => cmd = .exception

section Outputs

variable {S : Services} {σ : String → String}

/-- The answer as it is sent. -/
def reply (source channelId : String) (cmd : CommandType) (txid objectId val : String) : Response :=
  if source = "1" then .client channelId (.obj
    ([(if cmd = .exception then "error" else "data", .str val)] ++
      (if objectId = "" then [] else [("id", .str objectId)]) ++ [("txid", .str txid)]))
  else .node channelId cmd txid objectId val

theorem isException_reply (source channelId : String) (cmd : CommandType)
    (txid objectId val : String) :
    (reply source channelId cmd txid objectId val).isException = true ↔ cmd = .exception := by
  unfold reply
  -- a client is told by the name of a member, a node by the command
  by_cases hsource : source = "1"
  · rw [if_pos hsource]
    by_cases hcmd : cmd = .exception
    · simp [Response.isException, Json.get?, hcmd]
    · by_cases hid : objectId = "" <;>
        simp [Response.isException, Json.get?, hcmd, hid, List.lookup_cons]
  · rw [if_neg hsource]
    simp [Response.isException]

@[simp] theorem outputs_dhtGet (key : String) : (dhtGet key).outputs σ = [] := rfl

@[simp] theorem outputs_dhtPut (key value : String) : (dhtPut key value).outputs σ = [] := rfl

@[simp] theorem outputs_request {α : Type} (answer : Option α) :
    (request answer).outputs σ = [] := by
  cases answer <;> rfl

@[simp] theorem outputs_orRaise {α : Type} (answer : Option α) :
    (orRaise answer).outputs σ = [] := by
  cases answer <;> rfl

@[simp] theorem outputs_ret {α : Type} (a : α) : (.ret a : Cmd α).outputs σ = [] := rfl

@[simp] theorem outputs_raise {α : Type} : (.raise : Cmd α).outputs σ = [] := rfl

@[simp] theorem outputs_addObject (data : String) : (addObject S data).outputs σ = [] := rfl

@[simp] theorem outputs_fetchObject (hash : String) : (fetchObject S hash).outputs σ = [] := rfl

@[simp] theorem outputs_getUnorderedEdgeNamesOf (hash : String) :
    (getUnorderedEdgeNamesOf S hash).outputs σ = [] := rfl

/-- A program that sends nothing. -/
abbrev Silent {α : Type} (p : Cmd α) : Prop := Confined (fun _ => True) (fun _ => True)
  (fun _ => False) p

theorem Silent.outputs {α : Type} {p : Cmd α} (h : Silent p) (σ : String → String) :
    p.outputs σ = [] :=
  Prog.outputs_of_silent h.2.2 σ

theorem silent_linkToRoot (tree objectId objectHash txid : String) :
    Silent (linkToRoot S tree objectId objectHash txid) :=
  confined_linkToRoot trivial trivial (fun _ => trivial) ..

theorem silent_unLinkToRoot (tree txid rootHash objectId : String) :
    Silent (unLinkToRoot S tree txid rootHash objectId) :=
  confined_unLinkToRoot trivial (fun _ => trivial) ..

theorem silent_addDataRoot (tid objectId : String) : Silent (addDataRoot S tid objectId) :=
  confined_addDataRoot trivial

/-- The answer gets to the client, or to the node. -/
def GoesOut (x : CommandEnv) : Response → Prop
  | .client channelId j => x.delivery (.client channelId j) = .sent
  | .node .. => True

section GoesOut

variable {x : CommandEnv} {source channelId : String} {cmd : CommandType}
  {txid objectId val : String}

theorem send_of_goesOut (h : GoesOut x (reply source channelId cmd txid objectId val)) :
    send x source channelId cmd txid objectId val =
      .emit (reply source channelId cmd txid objectId val) (.ret ()) := by
  unfold reply at h ⊢
  unfold send
  by_cases hsource : source = "1"
  · rw [if_pos hsource] at h ⊢
    rw [if_pos hsource]
    dsimp only [GoesOut] at h ⊢
    rw [h]
  · rw [if_neg hsource, if_neg hsource]

theorem outputs_send_of_goesOut (h : GoesOut x (reply source channelId cmd txid objectId val)) :
    (send x source channelId cmd txid objectId val).outputs σ =
      [reply source channelId cmd txid objectId val] := by
  rw [send_of_goesOut h]
  rfl

theorem exec_send_of_goesOut (h : GoesOut x (reply source channelId cmd txid objectId val)) :
    (send x source channelId cmd txid objectId val).exec σ = (σ, some ()) := by
  rw [send_of_goesOut h]
  rfl

theorem outputs_send_of_not_goesOut
    (h : ¬GoesOut x (reply source channelId cmd txid objectId val)) :
    (send x source channelId cmd txid objectId val).outputs σ = [] := by
  unfold reply at h
  unfold send
  by_cases hsource : source = "1"
  · rw [if_pos hsource] at h
    rw [if_pos hsource]
    simp only [GoesOut] at h
    dsimp only
    split
    next hsent => exact absurd hsent h
    next => rfl
    next => rfl
  · rw [if_neg hsource] at h
    exact absurd trivial h

end GoesOut

variable {guid : Guid} {source : String} {status : Delivery} (hreached : source = "1" → status = .sent)
  (channelId : String) (cmd : CommandType) (txid objectId val : String)

include hreached

theorem delivered_reached : Delivered (answerEnv guid status) source := by
  by_cases hsource : source = "1"
  · apply delivered_sent
    intro response
    exact hreached hsource
  · exact delivered_gossip _ hsource

theorem outputs_send :
    (send (answerEnv guid status) source channelId cmd txid objectId val).outputs σ =
      [reply source channelId cmd txid objectId val] := by
  apply outputs_send_of_goesOut
  unfold reply
  by_cases hsource : source = "1"
  · rw [if_pos hsource]
    exact hreached hsource
  · rw [if_neg hsource]
    trivial

theorem exec_send_reached :
    (send (answerEnv guid status) source channelId cmd txid objectId val).exec σ =
      (σ, some ()) :=
  delivered_reached hreached channelId cmd txid objectId val σ

theorem outputs_send_bind {β : Type} {q : Unit → Cmd β} (hq : Silent (q ())) :
    (send (answerEnv guid status) source channelId cmd txid objectId val >>= q).outputs σ =
      [reply source channelId cmd txid objectId val] := by
  rw [Prog.outputs_bind, outputs_send hreached, exec_send_reached hreached]
  dsimp only
  rw [hq.outputs, List.append_nil]

omit hreached

/-- A step that puts nothing out and comes to its end. -/
theorem outputs_bind_of_exec {α β : Type} {p : Cmd α} {f : α → Cmd β} {σ σ' : String → String}
    {a : α} (hsilent : p.outputs σ = []) (hexec : p.exec σ = (σ', some a)) :
    (p >>= f).outputs σ = (f a).outputs σ' := by
  rw [Prog.outputs_bind, hsilent, hexec, List.nil_append]

end Outputs

end DecentralizedCloud.Storage

import DecentralizedCloud.Storage.Footprint
import DecentralizedCloud.Storage.ObjectStore
import DecentralizedCloud.Storage.Objects

/-!
# Isolation of tenants

Every key of a tenant has the tenant's id in it, between underscores, and ids may have
underscores themselves. When one id is another one prolonged by an underscore and more,
the two tenants have keys in common, and one may delete what the other has stored
(`reaches_across`). When neither id prolongs the other, no key that one of them reads is
one that the other writes (`ReadBy.not_writtenBy`), and so neither sees anything of the
other (`isolated_iff`).
-/

namespace DecentralizedCloud.Storage

open Schedule

/-! ## Queries and commands of tenants -/

/-- The queries of a tenant; a function is fetched by its id. -/
inductive Fetch where
  | function (functionId : String)
  | template (templateId : String)
  | document (entityId expression : String)
deriving DecidableEq, Repr

def Fetch.program (S : Services) (x : CommandEnv) (source channelId txid tid : String) :
    Fetch → Cmd Unit
  | .function functionId => fetchFunction S x source channelId txid tid functionId ""
  | .template templateId => fetchTemplate S x source channelId txid tid templateId
  | .document entityId expression => findDocument S x source channelId txid tid entityId expression

/-- What the requester of a query gets. -/
def Fetch.result (S : Services) (x : CommandEnv) (source channelId txid tid : String) (f : Fetch)
    (dht : String → String) : List Response :=
  ((f.program S x source channelId txid tid).run dht).2

/-- A command that a tenant has issued. -/
structure Issued where
  tid : String
  command : List String
  source : String
  channelId : String
  txid : String
  env : CommandEnv

/-- The store after the command. -/
def Issued.execute (S : Services) (c : Issued) (dht : String → String) : String → String :=
  ((executeStateChangeCommand S c.env c.command c.source c.channelId c.txid c.tid).run dht).1

/-- The store after commands. -/
def after (S : Services) (cs : List Issued) (dht : String → String) : String → String :=
  cs.foldl (fun dht c => c.execute S dht) dht

/-- What tenant `tid` does changes nothing for tenant `tid'`, and what `tid` is answered is
what it would be had `tid'` never stored anything. -/
structure Isolated (S : Services) (tid tid' : String) : Prop where
  command : ∀ (c : Issued), c.tid = tid → ∀ (f : Fetch) x source channelId txid dht,
    f.result S x source channelId txid tid' (c.execute S dht) =
      f.result S x source channelId txid tid' dht
  fetch : ∀ (f' f : Fetch) x' source' channelId' txid' x source channelId txid dht,
    f.result S x source channelId txid tid'
        ((f'.program S x' source' channelId' txid' tid).run dht).1 =
      f.result S x source channelId txid tid' dht
  answer : ∀ cs : List Issued, (∀ c ∈ cs, c.tid = tid ∨ c.tid = tid') →
    ∀ (f : Fetch) x source channelId txid dht,
      f.result S x source channelId txid tid (after S cs dht) =
        f.result S x source channelId txid tid (after S (cs.filter (·.tid ≠ tid')) dht)

/-! ## Common keys -/

/-- `tid'` is `tid` with an underscore and more behind it. -/
def Prolongs (tid tid' : String) : Prop := ∃ rest, tid' = tid ++ "_" ++ rest

section Keys

variable {tid tid' : String}

/-- Two ids that go on to the same text behind an underscore. -/
theorem prolongs_of_append_eq {a b : List Char} (hne : tid ≠ tid')
    (h : tid.toList ++ '_' :: a = tid'.toList ++ '_' :: b) :
    Prolongs tid tid' ∨ Prolongs tid' tid := by
  have hprolongs : ∀ {t t' : String} {c : Char} {rest cs cs' : List Char}, t ≠ t' →
      t'.toList = t.toList ++ cs' → '_' :: rest = cs' ++ c :: cs → c = '_' → Prolongs t t' := by
    intro t t' c rest cs cs' hne ht' hrest hc
    rcases cs' with _ | ⟨d, cs'⟩
    · rw [List.append_nil] at ht'
      exact absurd (String.toList_inj.mp ht').symm hne
    · rw [List.cons_append, List.cons.injEq] at hrest
      rcases hrest with ⟨rfl, -⟩
      refine ⟨String.ofList cs', ?_⟩
      rw [← String.toList_inj, ht']
      simp
  rcases List.append_eq_append_iff.mp h with ⟨cs, htid', hrest⟩ | ⟨cs, htid, hrest⟩
  · exact .inl (hprolongs hne htid' hrest rfl)
  · exact .inr (hprolongs hne.symm htid hrest rfl)

theorem objectKey_eq {tree tree' objectId objectId' : String}
    (htree : tree = functionTree ∨ tree = templateTree)
    (htree' : tree' = functionTree ∨ tree' = templateTree)
    (h : objectKey tree tid objectId = objectKey tree' tid' objectId') :
    tid.toList ++ '_' :: objectId.toList = tid'.toList ++ '_' :: objectId'.toList := by
  have hlist := congrArg String.toList h
  simp only [objectKey, String.toList_append] at hlist
  rcases htree with rfl | rfl <;> rcases htree' with rfl | rfl
  · simpa [functionTree] using hlist
  · simp [functionTree, templateTree] at hlist
  · simp [functionTree, templateTree] at hlist
  · simpa [templateTree] using hlist

theorem dataRootKey_eq {entityId entityId' : String}
    (h : dataRootKey tid entityId = dataRootKey tid' entityId') :
    tid.toList ++ '_' :: entityId.toList = tid'.toList ++ '_' :: entityId'.toList := by
  have hlist := congrArg String.toList h
  simpa [dataRootKey, rootKey, objectKey, dataTree, String.toList_append] using hlist

theorem rootKey_treeOf_eq {tree tree' : String}
    (htree : tree = functionTree ∨ tree = templateTree)
    (htree' : tree' = functionTree ∨ tree' = templateTree)
    (h : rootKey (treeOf tree tid) = rootKey (treeOf tree' tid')) : tid = tid' := by
  have hlist := congrArg String.toList h
  simp only [rootKey, treeOf, String.toList_append] at hlist
  rcases htree with rfl | rfl <;> rcases htree' with rfl | rfl
  · simpa [functionTree, String.toList_inj] using hlist
  · simp [functionTree, templateTree] at hlist
  · simp [functionTree, templateTree] at hlist
  · simpa [templateTree, String.toList_inj] using hlist

theorem rootKey_ne_dataRootKey {tree : String} (htree : tree = functionTree ∨ tree = templateTree)
    (tid tid' entityId : String) : rootKey (treeOf tree tid) ≠ dataRootKey tid' entityId := by
  intro h
  have hlist := congrArg String.toList h
  rcases htree with rfl | rfl <;>
    simp [dataRootKey, rootKey, treeOf, objectKey, functionTree, templateTree, dataTree,
      String.toList_append] at hlist

/-- No tenant writes what another one reads, unless one id prolongs the other. -/
theorem ReadBy.not_writtenBy (hne : tid ≠ tid')
    (h : ¬ Prolongs tid tid' ∧ ¬ Prolongs tid' tid) {key : String} (hread : ReadBy tid' key) :
    ¬ WrittenBy tid key := by
  -- the name of a tenant, an underscore, and the rest
  have happend : ∀ a b : List Char, tid.toList ++ '_' :: a ≠ tid'.toList ++ '_' :: b := by
    intro a b heq
    exact (prolongs_of_append_eq hne heq).elim h.1 h.2
  intro hwritten
  generalize hkey : key = key' at hwritten
  -- keys of two kinds are different, and keys of one kind have different tenants
  cases hread with
  | @root tree htree =>
      cases hwritten with
      | root htree' => exact hne (rootKey_treeOf_eq htree htree' hkey).symm
      | dataRoot entityId => exact rootKey_ne_dataRootKey htree _ _ _ hkey
      | object htree' objectId => exact objectKey_ne_rootKey htree' _ _ _ hkey.symm
      | document entityId documentId => exact documentKey_ne_rootKey _ _ _ _ hkey.symm
      | transaction hash => exact rootKey_ne_transactionKey _ _ hkey
  | dataRoot entityId =>
      cases hwritten with
      | root htree' => exact rootKey_ne_dataRootKey htree' _ _ _ hkey.symm
      | dataRoot entityId' => exact happend _ _ (dataRootKey_eq hkey.symm)
      | object htree' objectId => exact objectKey_ne_rootKey htree' _ _ _ hkey.symm
      | document entityId' documentId => exact documentKey_ne_rootKey _ _ _ _ hkey.symm
      | transaction hash => exact rootKey_ne_transactionKey _ _ hkey
  | @object tree htree objectId =>
      cases hwritten with
      | root htree' => exact objectKey_ne_rootKey htree _ _ _ hkey
      | dataRoot entityId => exact objectKey_ne_rootKey htree _ _ _ hkey
      | object htree' objectId' => exact happend _ _ (objectKey_eq htree' htree hkey.symm)
      | document entityId documentId => exact objectKey_ne_documentKey htree _ _ _ _ _ hkey
      | transaction hash => exact objectKey_ne_transactionKey htree _ _ _ hkey

end Keys

/-! ## Isolation -/

section Isolation

variable {S : Services} {tid tid' : String}

/-- A query reads keys of its tenant and writes nothing. -/
theorem confined_fetch (x : CommandEnv) (source channelId txid tid : String) (f : Fetch) :
    Confined (ReadBy tid) (fun _ => False) (fun _ => True)
      (f.program S x source channelId txid tid) := by
  have hsend := sendsOnly_all x source
  -- each query reads one key, and then objects
  cases f with
  | function functionId =>
      unfold Fetch.program fetchFunction
      dsimp only
      split
      · exact Confined.bind (by simp) fun _ => by simp [hsend]
      · apply Confined.bind (confined_dhtGet (.object (.inl rfl) functionId))
        intro val
        split
        · simp [hsend]
        · exact Confined.bind (by simp) fun _ => by simp [hsend]
  | template templateId =>
      unfold Fetch.program fetchTemplate
      apply Confined.bind (confined_dhtGet (.object (.inr rfl) templateId))
      intro val
      split
      · simp [hsend]
      · exact Confined.bind (by simp) fun _ => by simp [hsend]
  | document entityId expression =>
      unfold Fetch.program findDocument
      apply Confined.bind (confined_searchDocument (.dataRoot entityId) expression)
      intro docs
      exact Confined.bind (by simp) fun _ => by simp [hsend]

theorem Fetch.result_congr {x : CommandEnv} {source channelId txid : String} (f : Fetch)
    {dht dht' : String → String} (h : ∀ key, ReadBy tid key → dht key = dht' key) :
    f.result S x source channelId txid tid dht = f.result S x source channelId txid tid dht' :=
  ((confined_fetch x source channelId txid tid f).1.run_congr h).1

/-- A command of one tenant leaves the keys of another one alone. -/
theorem Issued.execute_of_readBy {c : Issued} (hne : c.tid ≠ tid')
    (h : ¬ Prolongs c.tid tid' ∧ ¬ Prolongs tid' c.tid) (dht : String → String) {key : String}
    (hread : ReadBy tid' key) : c.execute S dht key = dht key :=
  Prog.run_of_writes (confined_executeStateChangeCommand S (sendsOnly_all c.env c.source) c.command
    c.channelId c.txid c.tid).2.1 (hread.not_writtenBy hne h) dht

/-- The commands of another tenant make no difference at the keys of a tenant. -/
theorem after_congr (hne : tid ≠ tid') (h : ¬ Prolongs tid tid' ∧ ¬ Prolongs tid' tid)
    {cs : List Issued} (hcs : ∀ c ∈ cs, c.tid = tid ∨ c.tid = tid') {dht dht' : String → String}
    (hdht : ∀ key, ReadBy tid key → dht key = dht' key) :
    ∀ key, ReadBy tid key → after S cs dht key = after S (cs.filter (·.tid ≠ tid')) dht' key := by
  induction cs generalizing dht dht' with
  | nil => exact hdht
  | cons c cs ih =>
      have hrest := fun c' hc' => hcs c' (List.mem_cons_of_mem c hc')
      rcases hcs c List.mem_cons_self with rfl | rfl
      · rw [List.filter_cons_of_pos (by simpa using hne)]
        exact ih hrest ((confined_executeStateChangeCommand S (sendsOnly_all c.env c.source) c.command
          c.channelId c.txid c.tid).1.run_congr hdht).2
      · rw [List.filter_cons_of_neg (by simp)]
        apply ih hrest
        intro key hkey
        rw [← hdht key hkey]
        exact Issued.execute_of_readBy hne.symm h.symm dht hkey

theorem isolated_of_not_prolongs (hne : tid ≠ tid')
    (h : ¬ Prolongs tid tid' ∧ ¬ Prolongs tid' tid) : Isolated S tid tid' where
  command := by
    rintro c rfl f x source channelId txid dht
    exact f.result_congr fun key hkey => Issued.execute_of_readBy hne h dht hkey
  fetch := by
    intro f' f x' source' channelId' txid' x source channelId txid dht
    apply f.result_congr
    intro key _
    exact Prog.run_of_writes (confined_fetch x' source' channelId' txid' tid f').2.1 id dht
  answer := by
    intro cs hcs f x source channelId txid dht
    exact f.result_congr (after_congr hne h hcs fun _ _ => rfl)

/-! ## Common keys in use -/

/-- The command makes no object, and its answers go out. -/
def answeringEnv : CommandEnv :=
  { guid := ⟨"", Utf8.isUtf8_empty⟩, delivery := fun _ => .sent }

/-- The command to delete a function. -/
def deleteFunction (tid functionId : String) : Issued where
  tid := tid
  command := ["9", functionId]
  source := "0"
  channelId := "k"
  txid := "x"
  env := answeringEnv

/-- A deleted function has no key any more. -/
theorem execute_deleteFunction (tid functionId : String) (dht : String → String) :
    (deleteFunction tid functionId).execute S dht (objectKey functionTree tid functionId) = "" := by
  have hnumber : stoi (word ["9", functionId] 0) = some 9 := by
    have hnine : stoi "9" = some 9 := by decide
    exact hnine
  have hcode : Command.ofCode 9 = some .deleteFunction := by decide
  have hprogram : executeStateChangeCommand S answeringEnv ["9", functionId] "0" "k" "x" tid =
      deleteObject S answeringEnv "0" functionTree "k" "x" tid functionId := by
    simp only [executeStateChangeCommand, hnumber, orRaise, Prog.ret_bind, hcode]
    rfl
  -- what comes behind the first step writes other keys
  have hconfined : Confined (fun _ => True) (fun key => key ≠ objectKey functionTree tid functionId)
      (fun _ => True)
      (send answeringEnv "0" "k" .stateChange "x" functionId "deleted successfully" >>= fun _ =>
          dhtGet (rootKey (treeOf functionTree tid)) >>= fun rootHash =>
            unLinkToRoot S (treeOf functionTree tid) "x" rootHash functionId >>= fun _ =>
              if functionTree = templateTree then dhtPut (dataRootKey tid functionId) ""
              else pure ()) := by
    have hroot := objectKey_ne_rootKey (.inl rfl) tid functionId (treeOf functionTree tid)
    have htx := objectKey_ne_transactionKey (.inl rfl) tid functionId
    have htree : functionTree ≠ templateTree := by decide
    refine Confined.bind (by simp [sendsOnly_all]) fun _ => ?_
    refine Confined.bind (confined_dhtGet trivial) fun rootHash => ?_
    refine Confined.bind (confined_unLinkToRoot hroot.symm (fun hash => (htx hash).symm) _ _ _) ?_
    intro _
    rw [if_neg htree]
    simp
  have hrun := Prog.run_of_writes hconfined.2.1 (fun hne => hne rfl)
    (Function.update dht (objectKey functionTree tid functionId) "")
  rw [Function.update_self] at hrun
  exact (congrArg (fun p : Cmd Unit => (p.run dht).1 (objectKey functionTree tid functionId))
    hprogram).trans hrun

/-- An entry is fetched where its key leads. -/
theorem result_function (x : CommandEnv) (channelId txid tid functionId : String)
    (dht : String → String) :
    (Fetch.function functionId).result S x "0" channelId txid tid dht =
      [.node channelId .fetchFunction txid functionId
        (if dht (objectKey functionTree tid functionId) = "" then msgFunctionNotFound
          else (S.objectData (dht (objectKey functionTree tid functionId))).getD "")] := by
  have hsource : "0" ≠ "1" := by decide
  have hprogram : (Fetch.function functionId).result S x "0" channelId txid tid dht =
      ((if dht (objectKey functionTree tid functionId) = "" then
          send x "0" channelId .fetchFunction txid functionId msgFunctionNotFound
        else fetchObject S (dht (objectKey functionTree tid functionId)) >>= fun data =>
          send x "0" channelId .fetchFunction txid functionId data : Cmd Unit).run dht).2 := rfl
  rw [hprogram]
  split
  · rw [send, if_neg hsource]
    rfl
  · have hsend : (fetchObject S (dht (objectKey functionTree tid functionId)) >>= fun data =>
          send x "0" channelId .fetchFunction txid functionId data : Cmd Unit) =
        .call (send x "0" channelId .fetchFunction txid functionId
          ((S.objectData (dht (objectKey functionTree tid functionId))).getD "")) := rfl
    rw [hsend, send, if_neg hsource]
    rfl

/-- With a common key one tenant deletes what the other has stored. -/
theorem reaches_across
    (hS : ∃ hash, hash ≠ "" ∧ (S.objectData hash).getD "" ≠ msgFunctionNotFound)
    {functionId functionId' : String}
    (hkey : objectKey functionTree tid functionId = objectKey functionTree tid' functionId') :
    ¬ Isolated S tid tid' := by
  rcases hS with ⟨hash, hne, hdata⟩
  intro h
  have hsame := h.command (deleteFunction tid functionId) rfl (.function functionId')
    answeringEnv "0" "k" "x" fun _ => hash
  rw [result_function, result_function, ← hkey, execute_deleteFunction, if_pos rfl, if_neg hne,
    List.cons.injEq, Response.node.injEq] at hsame
  exact hdata hsame.1.2.2.2.2.symm

end Isolation

/-- Two tenants are isolated exactly when the id of neither is that of the other one with
an underscore and more behind it. -/
theorem isolated_iff {S : Services}
    (hS : ∃ hash, hash ≠ "" ∧ (S.objectData hash).getD "" ≠ msgFunctionNotFound)
    {tid tid' : String} (hne : tid ≠ tid') :
    Isolated S tid tid' ↔ ¬ Prolongs tid tid' ∧ ¬ Prolongs tid' tid := by
  constructor
  · intro h
    refine ⟨?_, ?_⟩
    · rintro ⟨rest, rfl⟩
      have hkey : objectKey functionTree tid (rest ++ "_" ++ "f") =
          objectKey functionTree (tid ++ "_" ++ rest) "f" := by
        simp [objectKey, String.append_assoc]
      exact reaches_across hS hkey h
    · rintro ⟨rest, rfl⟩
      have hkey : objectKey functionTree (tid' ++ "_" ++ rest) "f" =
          objectKey functionTree tid' (rest ++ "_" ++ "f") := by
        simp [objectKey, String.append_assoc]
      exact reaches_across hS hkey h
  · exact isolated_of_not_prolongs hne

namespace Sample

def tenantServices : Services :=
  ObjectStore.services (fun text => if text = "Y29kZQ==" then "code" else "") fun _ _ => none

/-- The hash of the function `code`. -/
def codeHash : String := "[\"code\",\x7b\x7d]"

theorem objectData_codeHash : tenantServices.objectData codeHash = some "code" := by
  decide +kernel

/-- A tenant adds the function `f`. -/
def addCode (tid : String) : Issued where
  tid := tid
  command := ["3", "Y29kZQ=="]
  source := "0"
  channelId := "k"
  txid := "x"
  env := { guid := ⟨"f", by decide⟩, delivery := fun _ => .sent }

end Sample

/-- Tenants with unrelated ids. -/
theorem isolated_acme_bolt : Isolated Sample.tenantServices "acme" "bolt" := by
  have hS : ∃ hash, hash ≠ "" ∧
      (Sample.tenantServices.objectData hash).getD "" ≠ msgFunctionNotFound := by
    refine ⟨Sample.codeHash, by decide, ?_⟩
    rw [Sample.objectData_codeHash]
    decide
  refine (isolated_iff hS (by decide)).mpr ⟨?_, ?_⟩
  · rintro ⟨rest, h⟩
    have hlist := congrArg String.toList h
    simp [String.toList_append] at hlist
  · rintro ⟨rest, h⟩
    have hlist := congrArg String.toList h
    simp [String.toList_append] at hlist

/-- The tenant `acme_eu` adds the function `f`, and can fetch it until the tenant `acme`
deletes what it calls `eu_f`. -/
theorem function_deleted_across :
    "acme" ≠ "acme_eu" ∧
      (Fetch.function "f").result Sample.tenantServices (deleteFunction "acme" "eu_f").env "0" "k"
          "x" "acme_eu" (after Sample.tenantServices [Sample.addCode "acme_eu"] fun _ => "") =
        [.node "k" .fetchFunction "x" "f" "code"] ∧
      (Fetch.function "f").result Sample.tenantServices (deleteFunction "acme" "eu_f").env "0" "k"
          "x" "acme_eu" ((deleteFunction "acme" "eu_f").execute Sample.tenantServices
            (after Sample.tenantServices [Sample.addCode "acme_eu"] fun _ => "")) =
        [.node "k" .fetchFunction "x" "f" msgFunctionNotFound] := by
  have hadded : after Sample.tenantServices [Sample.addCode "acme_eu"] (fun _ => "")
      (objectKey functionTree "acme_eu" "f") = Sample.codeHash := by
    decide +kernel
  have hkey : objectKey functionTree "acme_eu" "f" = objectKey functionTree "acme" "eu_f" := by
    decide
  have hne : Sample.codeHash ≠ "" := by decide
  refine ⟨by decide, ?_, ?_⟩
  · rw [result_function, hadded, if_neg hne, Sample.objectData_codeHash]
    rfl
  · rw [result_function, hkey, execute_deleteFunction, if_pos rfl]

end DecentralizedCloud.Storage

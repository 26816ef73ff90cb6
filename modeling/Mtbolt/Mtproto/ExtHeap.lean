import Mtbolt.Lib.LinkedRings
import Mtbolt.Mtproto.ExtConn

/-!
# The structures of external connections

The functions of `mtproto-proxy.c` that keep the `ext_connection` structures, with their pointers.  An
entry is in the chain of its key `(in_fd, in_conn_id)` in `InExtConnectionHash`, in a slot of
`OutExtConnections`, on the list of its `in_fd` and on that of its `out_fd`, whose heads are in
`ExtConnectionHead`, and on the list `ConnLRU` of all connections.
-/

namespace Mtbolt.Mtproto

open Function

/-- The fields of `struct ext_connection` other than its links. -/
structure ExtFields where
  inn : ConnId
  out : ConnId
  inConnId : BitVec 64
  outConnId : BitVec 64
  authKeyId : BitVec 64
  deriving DecidableEq, Repr

/-- The two families of lists: by `in_fd` (`i_prev`, `i_next`) and by `out_fd` (`o_prev`,
`o_next`). -/
inductive ListSide
  | inn
  | out
  deriving DecidableEq, Repr

/-- `in_fd` or `out_fd`. -/
def ExtFields.fd (x : ExtFields) : ListSide → ℕ
  | .inn => x.inn.fd
  | .out => x.out.fd

/-- The assertions, and what the model has for undefined behaviour. -/
inductive Abort
  /-- A null pointer or one to freed memory is used. -/
  | badPointer
  /-- A descriptor is not below `ext_conn_table_size`. -/
  | fdRange
  /-- `H->i_next == H->i_prev`. -/
  | inListLong
  /-- `Ex->in_fd == fd`, `Ex->out_fd == fd`. -/
  | wrongList
  /-- `cur->out_conn_id`, `Ex->out_conn_id`. -/
  | zeroId
  /-- `OutExtConnections[h].ref == cur`. -/
  | wrongRef
  /-- `OutExtConnections[h].out_conn_id == cur->out_conn_id`, `cur->out_conn_id == out_conn_id`. -/
  | wrongId
  /-- `ext_connections < EXT_CONN_TABLE_SIZE / 2`. -/
  | tableFull
  /-- `H->i_next == H` when an entry is created. -/
  | inListUsed
  /-- `Ex && "ext_connection already exists"`. -/
  | alreadyExists
  /-- `!Ex->out_fd && !Ex->o_next && !Ex->auth_key_id`. -/
  | notNew
  /-- `CO != CI`. -/
  | sameConnection
  /-- `H->o_next`, `H->i_next`, `Ex->o_next`, `Ex->i_next`. -/
  | notLinked
  /-- `Ex == find_ext_connection_by_out_conn_id (Ex->out_conn_id)`. -/
  | notFound
  /-- `assert (0)` for a notification to a multiplexed client. -/
  | multiplexed
  /-- The deletion does not return -1. -/
  | notDeleted
  /-- `!D->extra_int`. -/
  | alreadyReady
  /-- `!H->o_prev`, `!H->i_prev`. -/
  | listSetUp
  /-- `D->extra_int` is not the tag of the connection. -/
  | wrongTag
  /-- `H->o_next == H && H->o_prev == H`, and the same for `i_next` and `i_prev`. -/
  | listNotEmpty
  /-- No assertion: a loop of the model has not come to its end. -/
  | unfinished
  deriving DecidableEq, Repr

/-- `assert`. -/
def check (p : Prop) [Decidable p] (a : Abort) : Except Abort Unit := if p then .ok () else .error a

/-- Use of a pointer. -/
def deref {α : Type} : Option α → Except Abort α
  | none => .error .badPointer
  | some x => .ok x

/-- `ext_conn_table_size`; the allocated structures by address, their links, with the heads of the
lists by descriptor; the hash table; `ref` and `out_conn_id` of `OutExtConnections`; the counters;
and the `extra_int` of every connection. -/
structure ExtHeap where
  size : ℕ
  cell : ℕ → Option ExtFields
  links : ListSide → Links (ℕ ⊕ ℕ)
  connLru : Links (Unit ⊕ ℕ)
  inHash : ℕ → List ℕ
  ref : ℕ → Option ℕ
  lastId : ℕ → BitVec 64
  extConnections : ℤ
  extConnectionsCreated : ℤ
  extraInt : ConnId → ℤ

namespace ExtHeap

/-- After `ext_connection_table_init`. -/
def init (size : ℕ) : ExtHeap where
  size := size
  cell := fun _ => none
  links := fun _ => .empty
  connLru := Links.close .empty (.inl ())
  inHash := fun _ => []
  ref := fun _ => none
  lastId := fun _ => 0
  extConnections := 0
  extConnectionsCreated := 0
  extraInt := fun _ => 0

def setLinks (st : ExtHeap) (side : ListSide) (L : Links (ℕ ⊕ ℕ)) : ExtHeap :=
  { st with links := update st.links side L }

def setCell (st : ExtHeap) (a : ℕ) (x : Option ExtFields) : ExtHeap :=
  { st with cell := update st.cell a x }

def setExtraInt (st : ExtHeap) (c : ConnId) (n : ℤ) : ExtHeap :=
  { st with extraInt := update st.extraInt c n }

/-- `EXT_CONN_HASH_SHIFT`. -/
def extConnHashShift : ℕ := 20

/-- `ext_conn_hash`. -/
def extConnHash (inFd : ℕ) (inConnId : BitVec 64) : ℕ :=
  ((BitVec.ofNat 64 inFd * 11400714819323198485#64 + inConnId * 13043817825332782213#64) >>>
    (64 - extConnHashShift)).toNat

/-- `get_ext_connection_by_in_fd`. -/
def getByInFd (st : ExtHeap) (inFd : ℕ) : Except Abort (Option ℕ) := do
  check (inFd < st.size) .fdRange
  check ((st.links .inn).next (.inl inFd) = (st.links .inn).prev (.inl inFd)) .inListLong
  match (st.links .inn).next (.inl inFd) with
  | none => .ok none
  | some (.inl h) => if h = inFd then .ok none else .error .badPointer
  | some (.inr a) =>
    let x ← deref (st.cell a)
    check (x.inn.fd = inFd) .wrongList
    .ok (some a)

/-- `lru_delete_ext_conn`. -/
def lruDeleteExtConn (st : ExtHeap) (a : ℕ) : Except Abort ExtHeap := do
  let L ← deref (st.connLru.detach (.inr a))
  .ok { st with connLru := L.reset (.inr a) }

/-- `lru_insert_ext_conn`. -/
def lruInsertExtConn (st : ExtHeap) (a : ℕ) : Except Abort ExtHeap := do
  let st ← st.lruDeleteExtConn a
  let L ← deref (st.connLru.insertBefore (.inr a) (.inl ()))
  .ok { st with connLru := L }

/-- The search in a chain for the key. -/
def searchChain (st : ExtHeap) (inFd : ℕ) (inConnId : BitVec 64) : List ℕ → Except Abort (Option ℕ)
  | [] => .ok none
  | cur :: rest => do
    let x ← deref (st.cell cur)
    if x.inn.fd = inFd ∧ x.inConnId = inConnId then
      check (x.outConnId ≠ 0) .zeroId
      .ok (some cur)
    else searchChain st inFd inConnId rest

/-- Remove a structure from one of its lists, if it is on it. -/
def leaveList (st : ExtHeap) (side : ListSide) (a : ℕ) : Except Abort ExtHeap := do
  let L ← deref ((st.links side).detach (.inr a))
  .ok (st.setLinks side L)

/-- Mode 1 of `get_ext_connection_by_in_conn_id`, once the entry is found in the chain `h`. -/
def deleteExt (st : ExtHeap) (h cur : ℕ) (x : ExtFields) : Except Abort ExtHeap := do
  let st ← st.leaveList .inn cur
  let st ← st.leaveList .out cur
  let st ← st.lruDeleteExtConn cur
  let slot := slotOf x.outConnId
  check (st.ref slot = some cur) .wrongRef
  check (st.lastId slot = x.outConnId) .wrongId
  .ok { st with
    cell := update st.cell cur none
    inHash := update st.inHash h ((st.inHash h).erase cur)
    ref := update st.ref slot none
    extConnections := st.extConnections - 1 }

/-- `calloc`: the structure at the address `a`, filled with zeroes. -/
def calloc (st : ExtHeap) (a : ℕ) : ExtHeap :=
  { st with
    cell := update st.cell a (some ⟨⟨0, 0⟩, ⟨0, 0⟩, 0, 0, 0⟩)
    links := fun side => (st.links side).reset (.inr a)
    connLru := st.connLru.reset (.inr a) }

/-- A new structure goes to the end of the list of its `in_fd`, which is set up before; descriptor 0
has no list. -/
def enterInList (st : ExtHeap) (inFd a : ℕ) : Except Abort ExtHeap := do
  check (inFd < st.size) .fdRange
  if inFd = 0 then .ok st
  else
    let L := st.links .inn
    let L := if (L.next (.inl inFd)).isNone then L.close (.inl inFd) else L
    check (L.next (.inl inFd) = some (.inl inFd)) .inListUsed
    let L ← deref (L.insertBefore (.inr a) (.inl inFd))
    .ok (st.setLinks .inn L)

/-- The search for a free slot of `OutExtConnections`: the descriptor of a client that is not
multiplexed, then the numbers drawn. -/
def searchSlot (st : ExtHeap) (inFd : ℕ) (inConnId : BitVec 64) (draws : List ℕ) : Option ℕ :=
  ((if inConnId ≠ 0 then draws else inFd :: draws).map (· % extConnTableSize)).find?
    fun h => (st.ref h).isNone

/-- The creation in modes 2 and 3 of `get_ext_connection_by_in_conn_id`.  The structure gets the
address `a`. -/
def newExt (st : ExtHeap) (ci : ConnId) (inConnId : BitVec 64) (a : ℕ) (draws : List ℕ) :
    Except Abort ExtHeap := do
  check (st.extConnections < extConnTableSize / 2) .tableFull
  let st := st.calloc a
  let h := extConnHash ci.fd inConnId
  let st := { st with inHash := update st.inHash h (a :: st.inHash h) }
  let st := st.setCell a (some ⟨ci, ⟨0, 0⟩, inConnId, 0, 0⟩)
  let st ← st.enterInList ci.fd a
  match st.searchSlot ci.fd inConnId draws with
  | none => .error .unfinished
  | some slot =>
    let id := nextOutConnId (st.lastId slot) slot
    check (id ≠ 0) .zeroId
    .ok { st with
      cell := update st.cell a (some ⟨ci, ⟨0, 0⟩, inConnId, id, 0⟩)
      ref := update st.ref slot (some a)
      lastId := update st.lastId slot id
      extConnections := st.extConnections + 1
      extConnectionsCreated := st.extConnectionsCreated + 1 }

/-- The modes of `get_ext_connection_by_in_conn_id`. -/
inductive Mode
  | find
  | delete
  | create
  | findOrCreate
  deriving DecidableEq, Repr

/-- The results of `get_ext_connection_by_in_conn_id`: 0, -1, or an entry. -/
inductive Found
  | null
  | minusOne
  | entry (a : ℕ)
  deriving DecidableEq, Repr

/-- `get_ext_connection_by_in_conn_id`. -/
def getByInConnId (st : ExtHeap) (ci : ConnId) (inConnId : BitVec 64) (mode : Mode) (a : ℕ)
    (draws : List ℕ) : Except Abort (Found × ExtHeap) := do
  let h := extConnHash ci.fd inConnId
  match ← st.searchChain ci.fd inConnId (st.inHash h) with
  | some cur =>
    match mode with
    | .find | .findOrCreate => .ok (.entry cur, st)
    | .create => .ok (.null, st)
    | .delete =>
      let x ← deref (st.cell cur)
      let st ← st.deleteExt h cur x
      .ok (.minusOne, st)
  | none =>
    match mode with
    | .find | .delete => .ok (.null, st)
    | .create | .findOrCreate =>
      let st ← st.newExt ci inConnId a draws
      .ok (.entry a, st)

/-- `find_ext_connection_by_out_conn_id`. -/
def findByOutConnId (st : ExtHeap) (outConnId : BitVec 64) : Except Abort (Option ℕ) :=
  match st.ref (slotOf outConnId) with
  | none => .ok none
  | some cur =>
    if st.lastId (slotOf outConnId) ≠ outConnId then .ok none
    else do
      let x ← deref (st.cell cur)
      check (x.outConnId = outConnId) .wrongId
      .ok (some cur)

/-- The entry `a` goes to the end of the list of the middle-end connection `co`. -/
def enterOutList (st : ExtHeap) (a : ℕ) (x : ExtFields) (co : ConnId) : Except Abort ExtHeap := do
  check (((st.links .out).next (.inl co.fd)).isSome) .notLinked
  let L ← deref ((st.links .out).insertBefore (.inr a) (.inl co.fd))
  .ok ((st.setLinks .out L).setCell a (some { x with out := co }))

/-- `create_ext_connection`. -/
def createExt (st : ExtHeap) (ci : ConnId) (inConnId : BitVec 64) (co : Option ConnId)
    (authKeyId : BitVec 64) (a : ℕ) (draws : List ℕ) : Except Abort (ℕ × ExtHeap) := do
  match ← st.getByInConnId ci inConnId .create a draws with
  | (.entry ex, st) =>
    let x ← deref (st.cell ex)
    check (x.out.fd = 0 ∧ ((st.links .out).next (.inr ex)).isNone ∧ x.authKeyId = 0) .notNew
    check (∀ c ∈ co, c.fd < st.size) .fdRange
    check (co ≠ some ci) .sameConnection
    let st ← match co with
      | none => .ok st
      | some c => st.enterOutList ex x c
    let x ← deref (st.cell ex)
    .ok (ex, st.setCell ex (some { x with authKeyId := authKeyId }))
  | (.null, _) => .error .alreadyExists
  | (.minusOne, _) => .error .badPointer

/-- What `remove_ext_connection` does to connections: `RPC_CLOSE_CONN` to the middle-end, or the end
of the client's connection. -/
inductive Notice
  | remoteClosed (co : ConnId) (outConnId : BitVec 64)
  | fail (ci : ConnId)
  deriving DecidableEq, Repr

/-- The part of `remove_ext_connection` for the middle-end; `isOpen` says which connections exist. -/
def noticeOut (st : ExtHeap) (isOpen : ConnId → Bool) (a : ℕ) (x : ExtFields)
    (sendNotifications : ℕ) : Except Abort (List Notice) := do
  if x.out.fd = 0 then .ok []
  else
    check (x.out.fd < st.size) .fdRange
    check (((st.links .out).next (.inr a)).isSome) .notLinked
    .ok (if sendNotifications &&& 1 ≠ 0 ∧ isOpen x.out then [.remoteClosed x.out x.outConnId] else [])

/-- The part of `remove_ext_connection` for the client. -/
def noticeIn (st : ExtHeap) (isOpen : ConnId → Bool) (a : ℕ) (x : ExtFields)
    (sendNotifications : ℕ) : Except Abort (List Notice) := do
  if x.inn.fd = 0 then .ok []
  else
    check (x.inn.fd < st.size) .fdRange
    check (((st.links .inn).next (.inr a)).isSome) .notLinked
    if sendNotifications &&& 2 ≠ 0 then
      check (x.inConnId = 0) .multiplexed
      .ok (if isOpen x.inn then [.fail x.inn] else [])
    else .ok []

/-- `remove_ext_connection`. -/
def removeExt (st : ExtHeap) (isOpen : ConnId → Bool) (a : ℕ) (sendNotifications : ℕ) :
    Except Abort (List Notice × ExtHeap) := do
  let x ← deref (st.cell a)
  check (x.outConnId ≠ 0) .zeroId
  let found ← st.findByOutConnId x.outConnId
  check (found = some a) .notFound
  let outs ← st.noticeOut isOpen a x sendNotifications
  let ins ← st.noticeIn isOpen a x sendNotifications
  let (found, st) ← st.getByInConnId x.inn x.inConnId .delete 0 []
  check (found = .minusOne) .notDeleted
  .ok (outs ++ ins, st)

/-- `get_conn_tag`. -/
def getConnTag (c : ConnId) : ℤ := 1 + (c.gen.toNat % 2 ^ 24 : ℕ)

/-- The descriptor's list is set up: `H->prev = H->next = H`. -/
def setUpList (st : ExtHeap) (side : ListSide) (fd : ℕ) : Except Abort ExtHeap := do
  check (((st.links side).prev (.inl fd)).isNone) .listSetUp
  .ok (st.setLinks side ((st.links side).close (.inl fd)))

/-- `mtfront_client_ready`. -/
def mtfrontClientReady (st : ExtHeap) (c : ConnId) : Except Abort ExtHeap := do
  check (c.fd < st.size) .fdRange
  check (st.extraInt c = 0) .alreadyReady
  let st := st.setExtraInt c (getConnTag c)
  st.setUpList .out c.fd

/-- The loop over a descriptor's list in `mtfront_client_close` and `mtproto_proxy_rpc_close`: every
entry is removed.  The model bounds the number of entries by `fuel`. -/
def removeAll (isOpen : ConnId → Bool) (side : ListSide) (sendNotifications fd : ℕ) :
    ℕ → ℕ ⊕ ℕ → ExtHeap → Except Abort (List Notice × ExtHeap)
  | 0, _, _ => .error .unfinished
  | _ + 1, .inl h, st => if h = fd then .ok ([], st) else .error .badPointer
  | fuel + 1, .inr a, st => do
    let next := (st.links side).next (.inr a)
    let x ← deref (st.cell a)
    check (x.fd side = fd) .wrongList
    let (notices, st) ← st.removeExt isOpen a sendNotifications
    let ex ← deref next
    let (more, st) ← removeAll isOpen side sendNotifications fd fuel ex st
    .ok (notices ++ more, st)

/-- The end of a connection that has a list: the entries are removed, and the list is cleared. -/
def closeList (st : ExtHeap) (isOpen : ConnId → Bool) (side : ListSide) (sendNotifications fd : ℕ) :
    Except Abort (List Notice × ExtHeap) := do
  let first := (st.links side).next (.inl fd)
  check (first.isSome) .notLinked
  let ex ← deref first
  let (notices, st) ← removeAll isOpen side sendNotifications fd (st.extConnections.toNat + 1) ex st
  let L := st.links side
  check (L.next (.inl fd) = some (.inl fd) ∧ L.prev (.inl fd) = some (.inl fd)) .listNotEmpty
  .ok (notices, st.setLinks side (L.reset (.inl fd)))

/-- `mtfront_client_close`. -/
def mtfrontClientClose (st : ExtHeap) (isOpen : ConnId → Bool) (c : ConnId) :
    Except Abort (List Notice × ExtHeap) := do
  check (c.fd < st.size) .fdRange
  if st.extraInt c = 0 then .ok ([], st)
  else
    check (st.extraInt c = getConnTag c) .wrongTag
    let (notices, st) ← st.closeList isOpen .out 2 c.fd
    .ok (notices, st.setExtraInt c 0)

/-- `lru_delete_conn`. -/
def lruDeleteConn (st : ExtHeap) (c : ConnId) : Except Abort ExtHeap := do
  match ← st.getByInFd c.fd with
  | none => .ok st
  | some ext =>
    let x ← deref (st.cell ext)
    if x.inn.fd = c.fd then st.lruDeleteExtConn ext else .ok st

/-- `lru_insert_conn`. -/
def lruInsertConn (st : ExtHeap) (c : ConnId) : Except Abort ExtHeap := do
  match ← st.getByInFd c.fd with
  | none => .ok st
  | some ext =>
    let x ← deref (st.cell ext)
    if x.inn.fd = c.fd ∧ x.inn.gen = c.gen then st.lruInsertExtConn ext else .ok st

/-- `mtproto_proxy_rpc_ready`. -/
def mtprotoProxyRpcReady (st : ExtHeap) (c : ConnId) : Except Abort ExtHeap := do
  check (c.fd < st.size) .fdRange
  let st ← st.setUpList .inn c.fd
  check (st.extraInt c = 0) .alreadyReady
  let st := st.setExtraInt c (-getConnTag c)
  st.lruInsertConn c

/-- `mtproto_proxy_rpc_close`. -/
def mtprotoProxyRpcClose (st : ExtHeap) (isOpen : ConnId → Bool) (c : ConnId) :
    Except Abort (List Notice × ExtHeap) := do
  check (c.fd < st.size) .fdRange
  if st.extraInt c = 0 then .ok ([], st)
  else
    check (st.extraInt c = -getConnTag c) .wrongTag
    let (notices, st) ← st.closeList isOpen .inn 1 c.fd
    .ok (notices, st.setExtraInt c 0)

end ExtHeap

end Mtbolt.Mtproto

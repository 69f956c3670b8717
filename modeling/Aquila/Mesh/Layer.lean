import Aquila.Mesh.Rx
import Aquila.Mesh.TxRuns

/-! # The mesh layer as a whole

Reception and transmission share the security flag and LWM's lock counter. A turn of
`loop` runs LWM's tasks, which may accept packets and confirm requests, then gives one
packet to its handler, and then hands one request to LWM.
-/

namespace Aquila.Mesh
open Library

def Message.arrival (m : Message) (srcAddr : Word) (options lqi rssi : Byte) : Indication where
  srcAddr := srcAddr
  dstAddr := m.dstAddr
  srcEndpoint := m.srcEndpoint
  dstEndpoint := m.dstEndpoint
  options := options
  size := BitVec.ofNat 8 m.payload.length
  lqi := lqi
  rssi := rssi
  payload := m.payload

/-- The globals of the mesh layer with `nwkIb.lock`. The flag `secEnabled` is one variable. -/
structure AquilaMesh where
  rx : Rx
  tx : Tx
  /-- what the lock counts besides requests: allocated frames and the frame on the radio -/
  otherLocks : ℕ
  /-- the options of each accepted packet, and whether security was enabled at its arrival -/
  arrivals : List (Byte × Bool)
  secEnabled_eq : rx.secEnabled = tx.secEnabled

/-- What happens while `SYS_TaskHandler` runs. -/
inductive Task where
  | receive (frames : ℕ → Byte)
  | indicate (ind : RxPacket) (stack : RxBufPacket)
  | confirm (status control : Byte) (callback : List UserAction)
  | locks (count : ℕ)

inductive MeshStep where
  | user (action : UserAction)
  | openEndpoint (id : Byte) (handler : Handler)
  | task (t : Task)
  | rxAttendPend
  | sendNow

/-- One turn of `loop`: the tasks, and what the handler does if one is called. -/
structure Turn where
  tasks : List Task
  handler : List UserAction

namespace AquilaMesh

def init (rxStorage : Fin meshRxBufferSize → RxBufPacket) (rxPacket : RxBufPacket)
    (memory : CallerMemory) (txStorage : Fin meshTxBufferSize → TxBufPacket)
    (txPacket : TxBufPacket) : AquilaMesh where
  rx := Rx.init 0 rxStorage rxPacket
  tx := Tx.init memory txStorage txPacket
  otherLocks := 0
  arrivals := []
  secEnabled_eq := rfl

def withTx (s : AquilaMesh) (tx : Tx) : AquilaMesh where
  rx := { s.rx with secEnabled := tx.secEnabled }
  tx := tx
  otherLocks := s.otherLocks
  arrivals := s.arrivals
  secEnabled_eq := rfl

def withRx (s : AquilaMesh) (rx : Rx) : AquilaMesh where
  rx := { rx with secEnabled := s.tx.secEnabled }
  tx := s.tx
  otherLocks := s.otherLocks
  arrivals := s.arrivals
  secEnabled_eq := rfl

/-- `nwkIb.lock` -/
def lock (s : AquilaMesh) : ℕ := s.tx.nwkDataReqQueue + s.otherLocks

/-- `NWK_Busy` and `AquilaMesh::busy` -/
def busy (s : AquilaMesh) : Bool := decide (0 < s.lock)

def user (s : AquilaMesh) (action : UserAction) : AquilaMesh := s.withTx (s.tx.user action)

def indicate (s : AquilaMesh) (ind : RxPacket) (stack : RxBufPacket) : AquilaMesh :=
  let accepted := (s.rx.rxBootstrap ind stack).value.1
  { s.withRx (s.rx.step (.indicate ind stack)) with
    arrivals :=
      if accepted then s.arrivals ++ [(ind.options, s.tx.secEnabled)] else s.arrivals }

def task (s : AquilaMesh) : Task → AquilaMesh
  | .receive frames => s.withRx (s.rx.step (.receive frames))
  | .indicate ind stack => s.indicate ind stack
  | .confirm status control callback => s.withTx (s.tx.nwkDataReqConfirm status control callback)
  | .locks count => { s with otherLocks := count }

/-- `rxAttendPend`, up to what its handler does -/
def rxAttendPend (s : AquilaMesh) : AquilaMesh := s.withRx (s.rx.step (.attend s.busy))

/-- `AquilaMesh::sendNow` -/
def sendNow (s : AquilaMesh) : AquilaMesh := s.withTx (s.tx.sendNow s.busy)

def step (s : AquilaMesh) : MeshStep → AquilaMesh
  | .user action => s.user action
  | .openEndpoint id handler => s.withRx (s.rx.step (.openEndpoint id handler))
  | .task t => s.task t
  | .rxAttendPend => s.rxAttendPend
  | .sendNow => s.sendNow

def callsHandler (s : AquilaMesh) : Bool :=
  ((s.rx.rxAttendPend s.busy).1.bind Attended.call).isSome

/-- `AquilaMesh::loop` -/
def loop (s : AquilaMesh) (turn : Turn) : AquilaMesh :=
  let s := run task s turn.tasks
  let s := if s.callsHandler then run user s.rxAttendPend turn.handler else s.rxAttendPend
  s.sendNow

/-- `AquilaMesh::sleep`, given the turns of its loop: the state in which the radio is put to
sleep, unless the turns end while the layer is busy. -/
def sleep : List Turn → AquilaMesh → Option AquilaMesh
  | [], s => if s.busy then none else some s
  | turn :: turns, s => if s.busy then sleep turns (s.loop turn) else some s

/-! ### A turn is a run -/

theorem run_tasks (s : AquilaMesh) (tasks : List Task) :
    run task s tasks = run step s (tasks.map .task) := by
  induction tasks generalizing s with
  | nil => rfl
  | cons t tasks ih => exact ih (s.task t)

theorem run_users (s : AquilaMesh) (actions : List UserAction) :
    run user s actions = run step s (actions.map .user) := by
  induction actions generalizing s with
  | nil => rfl
  | cons action actions ih => exact ih (s.user action)

/-- A turn of `loop` is a run of the steps of the layer that ends with `sendNow`. -/
theorem exists_run_loop (s : AquilaMesh) (turn : Turn) :
    ∃ ls, s.loop turn = (run step s ls).sendNow := by
  let called := if (run task s turn.tasks).callsHandler then turn.handler else []
  refine ⟨turn.tasks.map .task ++ .rxAttendPend :: called.map .user, ?_⟩
  rw [run_append, run_cons, ← run_tasks]
  change s.loop turn = (run step (run task s turn.tasks).rxAttendPend (called.map .user)).sendNow
  rw [← run_users]
  simp only [loop, called]
  split
  case isTrue => rfl
  case isFalse => rfl

end AquilaMesh

end Aquila.Mesh

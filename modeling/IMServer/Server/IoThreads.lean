import IMServer.Reactor.LoopPool
import IMServer.Server.Requests
import Mathlib.Data.Int.CardIntervalMod

/-!
# The threads of the server

The threads that run the server: the thread of the base loop, which accepts connections and runs the
timers (`server/src/TcpServer.cc:63–90`, `server/src/BaseBusiness.cc:468`), and the threads of the
loops of the pool, which run everything else for the connections they were given. A handler is run
command by command, so that the commands of different threads interleave. What one thread does for a
connection of another goes through the queue of that other loop (`EventLoop.cc:140–163`). A step is
`none` when an assertion fails or a handler does not survive.

The handlers share `Server::connMap_` (`Server.h:95–96`) without a lock.
-/

namespace IMServer.Server

open IMServer.Base IMServer.Net IMServer.Business IMServer.Reactor

/-- A loop, and the thread it runs in; 0 is the base loop. -/
abbrev LoopId := Nat

/-- What is queued in a loop. -/
inductive LoopTask where
  | connectEstablished (conn : ConnId)
  | sendInLoop (conn : ConnId) (message : Outgoing)
  deriving DecidableEq

/-- The connection that a functor is about. -/
def LoopTask.conn : LoopTask → ConnId
  | connectEstablished conn | sendInLoop conn _ => conn

def LoopTask.establishes : LoopTask → Option ConnId
  | connectEstablished conn => some conn
  | sendInLoop _ _ => none

/-- What the thread of a loop is doing. -/
inductive Activity where
  | polling
  /-- In the handler of a message on a connection, or in the callback of a timer. -/
  | running (conn : Option ConnId) (rest : Op Unit)

/-- What happens to the server, one after the other. -/
inductive SerialEvent where
  | established (conn : ConnId)
  | signal (conn : ConnId) (signal : Signal Request ErrorCode)
  | close (conn : ConnId)
  /-- A call of `StopRobHongbao` that is due; its place in the list of timers. -/
  | timer (i : Nat)

structure IoServer where
  pool : EventLoopThreadPool LoopId
  nextConnId : Nat := 1
  /-- `TcpConnection::loop_`. -/
  loopOf : ConnId → LoopId := fun _ => 0
  world : World
  activity : LoopId → Activity := fun _ => .polling
  /-- `EventLoop::pendingFunctors_`, oldest first. -/
  queue : LoopId → List LoopTask := fun _ => []
  /-- What has been begun, in order. -/
  log : List SerialEvent := []

/-- A step of one thread. -/
inductive IoEvent where
  /-- The base loop accepts a connection. -/
  | accept
  /-- A loop runs the oldest of its functors. -/
  | functor (loop : LoopId)
  /-- The codec takes a message or an error from the bytes of a connection. -/
  | read (conn : ConnId) (signal : Signal Request ErrorCode)
  /-- A connection is closed by its peer. -/
  | close (conn : ConnId)
  /-- The base loop runs a timer. -/
  | timer (i : Nat)
  /-- The thread goes on with its handler. -/
  | step (loop : LoopId)

/-- The world when the timer at a place is taken, at its time or later. -/
def takeTimer (w : World) (i due : Nat) : World :=
  { w with timers := w.timers.eraseIdx i, clock := max w.clock due }

namespace IoServer

/-- `Server.cc:40`, `TcpServer.cc:50–61`. -/
def start (ioThreadNumber : Int) (w : World) : Option IoServer := do
  let pool ← ({ baseLoop := 0 } : EventLoopThreadPool LoopId).setThreadNum ioThreadNumber
  let pool ← pool.start (· + 1)
  some { pool, world := w }

def setActivity (s : IoServer) (l : LoopId) (a : Activity) : IoServer :=
  { s with activity := Function.update s.activity l a }

/-- Run a functor in the thread of a loop; `TcpConnection.cc:129–139`, `313–322`. -/
def perform (s : IoServer) (l : LoopId) (task : LoopTask) : Option IoServer := do
  guard (s.loopOf task.conn = l)
  match task with
  | .connectEstablished conn =>
    let world ← connectEstablished s.world conn
    some { s with world, log := s.log ++ [.established conn] }
  | .sendInLoop conn message =>
    some (if s.world.connState conn = .kDisconnected then s
      else { s with world := { s.world with sent := s.world.sent ++ [(conn, message)] } })

/-- `EventLoop.cc:140–163`, called in the thread of another loop or of the loop itself. -/
def runInLoop (s : IoServer) (caller l : LoopId) (task : LoopTask) : Option IoServer :=
  if caller = l then s.perform l task
  else some { s with queue := Function.update s.queue l (s.queue l ++ [task]) }

/-- A command of the thread of a loop; `TcpConnection.cc:103–122` for `send`. -/
def command (s : IoServer) (l : LoopId) : (c : Cmd) → Option (Reply c × IoServer)
  | .send conn message =>
    if s.world.connState conn = .kConnected then
      (s.runInLoop l (s.loopOf conn) (.sendInLoop conn message)).map fun s' => ((), s')
    else some ((), s)
  | c => some ((exec c s.world).1, { s with world := (exec c s.world).2 })

/-- `TcpServer.cc:63–90`. -/
def newConnection (s : IoServer) : Option IoServer := do
  guard (s.nextConnId + 1 < 2 ^ 31)
  let (loop, pool) ← s.pool.getNextLoop
  let conn := s.nextConnId
  let s' : IoServer :=
    { s with pool, nextConnId := conn + 1, loopOf := Function.update s.loopOf conn loop }
  s'.runInLoop 0 loop (.connectEstablished conn)

/-- The channel of a connection is in the poller. -/
def registered (s : IoServer) (conn : ConnId) : Prop :=
  s.world.connState conn = .kConnected ∨ s.world.connState conn = .kDisconnecting

instance (s : IoServer) (conn : ConnId) : Decidable (s.registered conn) :=
  inferInstanceAs (Decidable (_ ∨ _))

/-- `TcpConnection.cc:337–346`, `codec.cc:107–139`. -/
def read (wire : Wire) (s : IoServer) (conn : ConnId) (signal : Signal Request ErrorCode) :
    Option IoServer := do
  let s' : IoServer := { s with log := s.log ++ [.signal conn signal] }
  match signal with
  | .item message =>
    let handler ← (dispatcher wire).onProtobufMessage message
    some (s'.setActivity (s.loopOf conn) (.running (some conn) (handler conn)))
  | .error _ => some { s' with world := defaultErrorCallback s.world conn }

/-- `TcpConnection.cc:398–411`. -/
def close (s : IoServer) (conn : ConnId) : Option IoServer := do
  let world ← handleClose s.world conn
  some { s with world, log := s.log ++ [.close conn] }

/-- The base loop runs a timer. -/
def timer (wire : Wire) (s : IoServer) (i : Nat) : IoServer :=
  match s.world.timers[i]? with
  | some (due, key, sender) =>
    { s.setActivity 0 (.running none (stopRobHongbao wire key sender)) with
      world := takeTimer s.world i due, log := s.log ++ [.timer i] }
  | none => s

/-- A thread goes on with what it is running. -/
def proceed (s : IoServer) (l : LoopId) (conn : Option ConnId) : Op Unit → Option IoServer
  | .pure _ => some (s.setActivity l .polling)
  | .throw _ => none
  | .call c next => do
    let (r, s') ← s.command l c
    some (s'.setActivity l (.running conn (next r)))

/-- What the thread of a loop does in place of polling; a thread that is busy does not poll. -/
def whenPolling (s : IoServer) (l : LoopId) (s' : Option IoServer) : Option IoServer :=
  match s.activity l with
  | .polling => s'
  | .running _ _ => some s

def step (wire : Wire) (s : IoServer) : IoEvent → Option IoServer
  | .accept => s.whenPolling 0 s.newConnection
  | .functor l =>
    match s.queue l with
    | [] => some s
    | task :: rest =>
      let s' : IoServer := { s with queue := Function.update s.queue l rest }
      s.whenPolling l (s'.perform l task)
  | .read conn signal =>
    if s.registered conn then s.whenPolling (s.loopOf conn) (s.read wire conn signal) else some s
  | .close conn =>
    if s.registered conn then s.whenPolling (s.loopOf conn) (s.close conn) else some s
  | .timer i => s.whenPolling 0 (some (s.timer wire i))
  | .step l =>
    match s.activity l with
    | .polling => some s
    | .running conn rest => s.proceed l conn rest

end IoServer

/-! ### The table of connections -/

/-- A call of `connMap_[username]`. -/
def usesTable : Cmd → Bool
  | .saveUsernameConn _ _ | .getConnByUsername _ => true
  | _ => false

/-- The thread of a loop is about to call `connMap_[username]`. -/
def IoServer.AtTable (s : IoServer) (l : LoopId) : Prop :=
  ∃ conn c next, s.activity l = .running conn (.call c next) ∧ usesTable c = true

section OffTable

open Prog

/-- The command leaves `connMap_` alone. -/
def OffTable (c : Cmd) : Prop := usesTable c = false

private theorem offTable_getpbHongbao (wire : Wire) (conn : Option Handle) (key : String) :
    Uses OffTable (CacheConn.getpbHongbao wire conn key) :=
  uses_getpb (fun _ => rfl) _ conn key

/-- The timers do not use the table. -/
theorem offTable_stopRobHongbao (wire : Wire) (key sender : String) :
    Uses OffTable (stopRobHongbao wire key sender) := by
  refine uses_bind (uses_request rfl) fun manager =>
    uses_bind (uses_getCacheConn (fun _ => rfl) _ _) fun conn =>
    uses_bind (offTable_getpbHongbao _ _ _) fun p =>
    uses_bind (uses_bind (uses_deref _) fun _ => uses_request rfl) fun _ =>
    uses_bind (uses_request rfl) fun ml => ?_
  have hend : Uses OffTable (do
      relCacheConn manager conn
      issue (.releaseConnection ml)) :=
    uses_bind (uses_relCacheConn (fun _ => rfl) _ _) fun _ => uses_request rfl
  split
  · exact uses_pure _
  · refine uses_bind (uses_request rfl) fun _ => ?_
    split
    · exact uses_bind (uses_request rfl) fun _ => hend
    · exact hend

end OffTable

/-! ### Where everything is done -/

/-- Every message has a handler. -/
theorem exists_handler (wire : Wire) (message : Request) :
    ∃ handler, (dispatcher wire).onProtobufMessage message = some handler := by
  obtain ⟨d, m⟩ := message
  cases d <;> exact ⟨_, rfl⟩

/-- The loop of the connection that is made when `nextConnId_` has the given value. -/
def loopNumber (numThreads : Nat) (conn : ConnId) : LoopId :=
  if numThreads = 0 then 0 else (conn - 1) % numThreads + 1

/-- Connections go to the loops in turn. -/
theorem loopFor_eq {p : EventLoopThreadPool LoopId} {numThreads : Nat} (hb : p.baseLoop = 0)
    (hl : p.loops = (List.range numThreads).map (· + 1)) (conn : ConnId) :
    p.loopFor (conn - 1) = loopNumber numThreads conn := by
  unfold EventLoopThreadPool.loopFor loopNumber
  rw [hl, hb, List.length_map, List.length_range]
  split
  · next h => simp [h]
  · next h =>
    have hlt := Nat.mod_lt (conn - 1) (Nat.pos_of_ne_zero h)
    simp [hlt]

namespace IoServer

/-- The connection has been made. -/
def Made (s : IoServer) (conn : ConnId) : Prop := 1 ≤ conn ∧ conn < s.nextConnId

/-- Whose turn it is, and which loop every connection has been given to. -/
structure Placed (n : Nat) (pool : EventLoopThreadPool LoopId) (nextConnId : Nat)
    (loopOf : ConnId → LoopId) : Prop where
  turn : pool.Turn (nextConnId - 1)
  base : pool.baseLoop = 0
  loops : pool.loops = (List.range n).map (· + 1)
  next : 1 ≤ nextConnId
  loopOf : ∀ conn, 1 ≤ conn ∧ conn < nextConnId → loopOf conn = loopNumber n conn

/-- The connections that a loop is still to establish. -/
def toEstablish (s : IoServer) (l : LoopId) : List ConnId :=
  (s.queue l).filterMap LoopTask.establishes

/-- Everything about a connection is done in the thread of its loop. -/
structure Inv (n : Nat) (s : IoServer) : Prop where
  placed : Placed n s.pool s.nextConnId s.loopOf
  made : ∀ conn, s.world.connState conn ≠ .kConnecting → s.Made conn
  queued : ∀ l, ∀ task ∈ s.queue l, s.Made task.conn ∧ s.loopOf task.conn = l
  establishing : ∀ l, ∀ conn ∈ s.toEstablish l, s.world.connState conn = .kConnecting
  once : ∀ l, (s.toEstablish l).Nodup
  handling : ∀ l conn p, s.activity l = .running (some conn) p → s.Made conn ∧ s.loopOf conn = l
  timing : ∀ l p, s.activity l = .running none p → l = 0 ∧ Prog.Uses OffTable p

variable {n : Nat} {s s' : IoServer}

/-- The server after `start`. -/
theorem start_eq (n : Nat) (w : World) : start n w = some {
    pool := {
      baseLoop := 0, started := true, numThreads := n, loops := (List.range n).map (· + 1) }
    world := w } := by
  simp [start, EventLoopThreadPool.setThreadNum, EventLoopThreadPool.start]

/-- No connection has been made. -/
theorem inv_start {w : World} (hw : ∀ conn, w.connState conn = .kConnecting)
    (h : start n w = some s) : s.Inv n := by
  simp only [start, EventLoopThreadPool.setThreadNum, EventLoopThreadPool.start] at h
  simp at h
  subst h
  refine ⟨⟨⟨rfl, fun _ => (Nat.zero_mod _).symm⟩, rfl, rfl, Nat.le_refl 1, fun conn hc => ?_⟩,
    fun conn hc => absurd (hw conn) hc, fun l task ht => ?_, fun l conn hc => ?_,
    fun l => List.nodup_nil, fun l conn p ha => (by cases ha), fun l p ha => (by cases ha)⟩
  · exact absurd (Nat.lt_of_le_of_lt hc.1 hc.2) (Nat.lt_irrefl 1)
  · cases ht
  · cases hc

namespace Inv

/-- A connection that can be read from is not waiting to be established. -/
theorem notMem_toEstablish (h : s.Inv n) {conn : ConnId}
    (hc : s.world.connState conn ≠ .kConnecting) (l : LoopId) : conn ∉ s.toEstablish l :=
  fun hm => hc (h.establishing l conn hm)

private theorem setWorld (h : s.Inv n) {w : World} (hc : w.connState = s.world.connState)
    (log : List SerialEvent) : ({ s with world := w, log } : IoServer).Inv n :=
  ⟨h.placed, fun conn hne => h.made conn (by rwa [← hc]), h.queued,
    fun l conn hm => (congrFun hc conn).trans (h.establishing l conn hm), h.once, h.handling,
    h.timing⟩

private theorem setState (h : s.Inv n) {conn : ConnId} (hm : s.Made conn)
    (he : ∀ l, conn ∉ s.toEstablish l) (state : ConnState) (log : List SerialEvent) :
    ({ s with world := Server.setState s.world conn state, log } : IoServer).Inv n := by
  refine ⟨h.placed, fun c hc => ?_, h.queued, fun l c hc => ?_, h.once, h.handling, h.timing⟩
  · by_cases heq : c = conn
    · exact heq ▸ hm
    · exact h.made c (by simpa [Server.setState, heq] using hc)
  · have hne : c ≠ conn := fun heq => he l (heq ▸ hc)
    simpa [Server.setState, hne] using h.establishing l c hc

private theorem setActivity (h : s.Inv n) {l : LoopId} {a : Activity}
    (hh : ∀ conn p, a = .running (some conn) p → s.Made conn ∧ s.loopOf conn = l)
    (ht : ∀ p, a = .running none p → l = 0 ∧ Prog.Uses OffTable p) :
    (s.setActivity l a).Inv n := by
  refine ⟨h.placed, h.made, h.queued, h.establishing, h.once, fun l' conn p ha => ?_,
    fun l' p ha => ?_⟩
  · by_cases heq : l' = l
    · subst heq
      exact hh conn p (by simpa [IoServer.setActivity] using ha)
    · exact h.handling l' conn p (by simpa [IoServer.setActivity, heq] using ha)
  · by_cases heq : l' = l
    · subst heq
      exact ht p (by simpa [IoServer.setActivity] using ha)
    · exact h.timing l' p (by simpa [IoServer.setActivity, heq] using ha)

/-- The oldest functor is taken out. -/
theorem pop (h : s.Inv n) {l : LoopId} {task : LoopTask} {rest : List LoopTask}
    (hq : s.queue l = task :: rest) :
    ({ s with queue := Function.update s.queue l rest } : IoServer).Inv n := by
  have hsub : ∀ l', (Function.update s.queue l rest l').Sublist (s.queue l') := by
    intro l'
    by_cases heq : l' = l
    · subst heq
      rw [Function.update_self, hq]
      exact List.sublist_cons_self task rest
    · rw [Function.update_of_ne heq]
  exact ⟨h.placed, h.made, fun l' t ht => h.queued l' t ((hsub l').subset ht),
    fun l' conn hc => h.establishing l' conn (((hsub l').filterMap _).subset hc),
    fun l' => (h.once l').sublist ((hsub l').filterMap _), h.handling, h.timing⟩

/-- A functor that is queued establishes a connection that no other one will. -/
theorem establishes_head (h : s.Inv n) {l : LoopId} {conn : ConnId} {rest : List LoopTask}
    (hq : s.queue l = .connectEstablished conn :: rest) (l' : LoopId) :
    conn ∉ ({ s with queue := Function.update s.queue l rest } : IoServer).toEstablish l' := by
  intro hm
  by_cases heq : l' = l
  · subst heq
    have honce := h.once l'
    simp only [toEstablish, Function.update_self, hq, LoopTask.establishes] at hm honce
    exact (List.nodup_cons.mp honce).1 hm
  · simp only [toEstablish, Function.update_of_ne heq, List.mem_filterMap] at hm
    obtain ⟨task, htask, hest⟩ := hm
    have hconn : task.conn = conn := by
      cases task with
      | connectEstablished c => exact Option.some.inj hest
      | sendInLoop c m => cases hest
    have h₁ := (h.queued l' task htask).2
    have h₂ := (h.queued l (.connectEstablished conn) (by rw [hq]; exact List.mem_cons_self)).2
    rw [hconn] at h₁
    exact heq (h₁.symm.trans h₂)

private theorem push (h : s.Inv n) {l : LoopId} {task : LoopTask} (hm : s.Made task.conn)
    (hl : s.loopOf task.conn = l)
    (he : ∀ conn, task.establishes = some conn →
      s.world.connState conn = .kConnecting ∧ conn ∉ s.toEstablish l) :
    ({ s with queue := Function.update s.queue l (s.queue l ++ [task]) } : IoServer).Inv n := by
  refine ⟨h.placed, h.made, fun l' t ht => ?_, fun l' conn hc => ?_, fun l' => ?_, h.handling,
    h.timing⟩
  · by_cases heq : l' = l
    · subst heq
      simp only [Function.update_self, List.mem_append, List.mem_singleton] at ht
      rcases ht with ht | rfl
      · exact h.queued l' t ht
      · exact ⟨hm, hl⟩
    · simp only [Function.update_of_ne heq] at ht
      exact h.queued l' t ht
  · by_cases heq : l' = l
    · subst heq
      simp only [toEstablish, Function.update_self, List.filterMap_append, List.mem_append] at hc
      rcases hc with hc | hc
      · exact h.establishing l' conn hc
      · simp only [List.mem_filterMap, List.mem_singleton, exists_eq_left] at hc
        exact (he conn hc).1
    · simp only [toEstablish, Function.update_of_ne heq] at hc
      exact h.establishing l' conn hc
  · by_cases heq : l' = l
    · subst heq
      simp only [toEstablish, Function.update_self, List.filterMap_append]
      cases hest : task.establishes with
      | none =>
        simp only [List.filterMap_cons, List.filterMap_nil, hest, List.append_nil]
        exact h.once l'
      | some conn =>
        have hnot := (he conn hest).2
        simp only [List.filterMap_cons, List.filterMap_nil, hest]
        refine List.nodup_append.mpr ⟨h.once l', List.nodup_singleton conn, fun a ha b hb => ?_⟩
        rw [List.mem_singleton.mp hb]
        exact fun hab => hnot (hab ▸ ha)
    · simp only [toEstablish, Function.update_of_ne heq]
      exact h.once l'

end Inv

/-- A registered connection has been established. -/
theorem connState_of_registered {conn : ConnId} (hr : s.registered conn) :
    s.world.connState conn ≠ .kConnecting := by
  rcases hr with hr | hr
  · rw [hr]
    decide
  · rw [hr]
    decide

/-- The connections and what the threads are running stay as they are. -/
structure Kept (s s' : IoServer) : Prop where
  nextConnId : s'.nextConnId = s.nextConnId
  loopOf : s'.loopOf = s.loopOf
  activity : s'.activity = s.activity

private theorem Kept.made (h : Kept s s') {conn : ConnId} (hm : s.Made conn) : s'.Made conn := by
  unfold Made
  rw [h.nextConnId]
  exact hm

namespace Inv

/-- A functor runs in the loop of its connection. -/
theorem perform (h : s.Inv n) {l : LoopId} {task : LoopTask} (hm : s.Made task.conn)
    (hl : s.loopOf task.conn = l)
    (he : ∀ conn, task.establishes = some conn →
      s.world.connState conn = .kConnecting ∧ ∀ l', conn ∉ s.toEstablish l') :
    ∃ s', s.perform l task = some s' ∧ s'.Inv n ∧ Kept s s' := by
  cases task with
  | connectEstablished conn =>
    obtain ⟨hstate, hnot⟩ := he conn rfl
    have hmade : s.Made conn := hm
    refine ⟨_, ?_, h.setState hmade hnot .kConnected (s.log ++ [.established conn]),
      ⟨rfl, rfl, rfl⟩⟩
    simp [IoServer.perform, hl, connectEstablished, hstate]
  | sendInLoop conn message =>
    simp only [IoServer.perform, hl, guard_true, Option.pure_def, Option.bind_eq_bind,
      Option.bind_some, Option.some.injEq, exists_eq_left']
    split
    · exact ⟨h, rfl, rfl, rfl⟩
    · exact ⟨h.setWorld (w := { s.world with sent := s.world.sent ++ [(conn, message)] }) rfl s.log,
        rfl, rfl, rfl⟩

private theorem runInLoop (h : s.Inv n) {l : LoopId} (task : LoopTask) (hm : s.Made task.conn)
    (hl : s.loopOf task.conn = l)
    (he : ∀ conn, task.establishes = some conn →
      s.world.connState conn = .kConnecting ∧ ∀ l', conn ∉ s.toEstablish l')
    (caller : LoopId) : ∃ s', s.runInLoop caller l task = some s' ∧ s'.Inv n ∧ Kept s s' := by
  unfold IoServer.runInLoop
  split
  · exact h.perform hm hl he
  · exact ⟨_, rfl, h.push hm hl fun conn hc => ⟨(he conn hc).1, (he conn hc).2 l⟩, rfl, rfl, rfl⟩

/-- The next connection is given to the loop whose turn it is. -/
theorem place (h : s.Inv n) {pool : EventLoopThreadPool LoopId}
    (hturn : pool.Turn (s.nextConnId - 1 + 1)) (hloops : pool.loops = s.pool.loops)
    (hbase : pool.baseLoop = s.pool.baseLoop) :
    ({ s with
      pool, nextConnId := s.nextConnId + 1
      loopOf := Function.update s.loopOf s.nextConnId (loopNumber n s.nextConnId) } :
      IoServer).Inv n := by
  have hpos := h.placed.next
  have hold : ∀ conn, s.Made conn →
      Function.update s.loopOf s.nextConnId (loopNumber n s.nextConnId) conn = s.loopOf conn :=
    fun conn hm => Function.update_of_ne (Nat.ne_of_lt hm.2) ..
  have hmade : ∀ conn, s.Made conn → 1 ≤ conn ∧ conn < s.nextConnId + 1 :=
    fun conn hm => ⟨hm.1, Nat.lt_succ_of_lt hm.2⟩
  have hplaced : Placed n pool (s.nextConnId + 1)
      (Function.update s.loopOf s.nextConnId (loopNumber n s.nextConnId)) := by
    refine ⟨?_, hbase.trans h.placed.base, hloops.trans h.placed.loops, Nat.le_add_left 1 _,
      fun conn hc => ?_⟩
    · rwa [Nat.add_sub_cancel, ← Nat.sub_add_cancel hpos]
    · by_cases heq : conn = s.nextConnId
      · rw [heq, Function.update_self]
      · have hm : s.Made conn := ⟨hc.1, Nat.lt_of_le_of_ne (Nat.le_of_lt_succ hc.2) heq⟩
        rw [hold conn hm]
        exact h.placed.loopOf conn hm
  refine ⟨hplaced, fun conn hc => hmade conn (h.made conn hc), fun l task ht => ?_, h.establishing,
    h.once, fun l conn p ha => ?_, h.timing⟩
  · obtain ⟨hm, hl⟩ := h.queued l task ht
    exact ⟨hmade _ hm, (hold _ hm).trans hl⟩
  · obtain ⟨hm, hl⟩ := h.handling l conn p ha
    exact ⟨hmade _ hm, (hold _ hm).trans hl⟩

private theorem newConnection (h : s.Inv n) (hn : s.nextConnId + 1 < 2 ^ 31) :
    ∃ s', s.newConnection = some s' ∧ s'.Inv n := by
  obtain ⟨pool, hnext, hturn, hloops, hbase⟩ := h.placed.turn.getNextLoop
  have hplace := h.place hturn hloops hbase
  have hfresh : ¬ s.Made s.nextConnId := fun hm => Nat.lt_irrefl _ hm.2
  have hstate : s.world.connState s.nextConnId = .kConnecting := by
    by_contra hc
    exact hfresh (h.made _ hc)
  have hnot : ∀ l, s.nextConnId ∉ s.toEstablish l := by
    intro l hm
    obtain ⟨task, htask, hest⟩ := List.mem_filterMap.mp hm
    cases task with
    | connectEstablished conn =>
      obtain rfl : conn = s.nextConnId := Option.some.inj hest
      exact hfresh (h.queued l _ htask).1
    | sendInLoop conn m => cases hest
  obtain ⟨s', hrun, hinv, -⟩ := hplace.runInLoop (.connectEstablished s.nextConnId)
    ⟨h.placed.next, Nat.lt_succ_self _⟩ (Function.update_self ..)
    (fun conn hc => by
      obtain rfl : s.nextConnId = conn := Option.some.inj hc
      exact ⟨hstate, hnot⟩) 0
  refine ⟨s', ?_, hinv⟩
  rw [loopFor_eq h.placed.base h.placed.loops] at hnext
  simp only [IoServer.newConnection, guard, if_pos hn, hnext, Option.pure_def, Option.bind_eq_bind,
    Option.bind_some]
  exact hrun

/-- A thread never fails to issue a command. -/
theorem command (h : s.Inv n) (l : LoopId) (c : Cmd) :
    ∃ r s', s.command l c = some (r, s') ∧ s'.Inv n ∧ Kept s s' := by
  cases c with
  | send conn message =>
    simp only [IoServer.command]
    split
    · next hc =>
      have hm : s.Made conn := h.made conn (by rw [hc]; decide)
      obtain ⟨s', hrun, hinv, hkept⟩ := h.runInLoop (.sendInLoop conn message) hm rfl
        (fun _ he => by cases he) l
      exact ⟨(), s', by rw [LoopTask.conn] at hrun; rw [hrun]; rfl, hinv, hkept⟩
    · exact ⟨(), s, rfl, h, rfl, rfl, rfl⟩
  | _ => exact ⟨_, _, rfl, h.setWorld (exec_connState _ _) s.log, rfl, rfl, rfl⟩

private theorem whenPolling (h : s.Inv n) {l : LoopId} {x : Option IoServer}
    (hx : s.activity l = .polling → ∃ s', x = some s' ∧ s'.Inv n) :
    ∃ s', s.whenPolling l x = some s' ∧ s'.Inv n := by
  unfold IoServer.whenPolling
  split
  · next ha => exact hx ha
  · exact ⟨s, rfl, h⟩

private theorem functor (h : s.Inv n) {l : LoopId} {task : LoopTask} {rest : List LoopTask}
    (hq : s.queue l = task :: rest) :
    ∃ s', ({ s with queue := Function.update s.queue l rest } : IoServer).perform l task = some s' ∧
      s'.Inv n := by
  have hmem : task ∈ s.queue l := by
    rw [hq]
    exact List.mem_cons_self
  obtain ⟨hm, hl⟩ := h.queued l task hmem
  have hest : ∀ conn, task.establishes = some conn → s.world.connState conn = .kConnecting ∧ ∀ l',
      conn ∉ ({ s with queue := Function.update s.queue l rest } : IoServer).toEstablish l' := by
    intro conn hc
    cases task with
    | connectEstablished c =>
      obtain rfl : c = conn := Option.some.inj hc
      exact ⟨h.establishing l c (List.mem_filterMap.mpr ⟨_, hmem, rfl⟩), h.establishes_head hq⟩
    | sendInLoop c m => cases hc
  obtain ⟨s', hs, hinv, -⟩ := (h.pop hq).perform hm hl hest
  exact ⟨s', hs, hinv⟩

private theorem read (h : s.Inv n) (wire : Wire) {conn : ConnId} (hr : s.registered conn)
    (signal : Signal Request ErrorCode) : ∃ s', s.read wire conn signal = some s' ∧ s'.Inv n := by
  have hne := connState_of_registered hr
  have hm := h.made conn hne
  cases signal with
  | item message =>
    obtain ⟨handler, hh⟩ := exists_handler wire message
    have hlog := h.setWorld (w := s.world) rfl (s.log ++ [.signal conn (.item message)])
    refine ⟨_, ?_, hlog.setActivity (l := s.loopOf conn)
      (a := .running (some conn) (handler conn)) (fun c p ha => ?_) fun p ha => (by cases ha)⟩
    · simp [IoServer.read, hh]
    · cases ha
      exact ⟨hm, rfl⟩
  | error e =>
    refine ⟨_, rfl, ?_⟩
    simp only [defaultErrorCallback]
    split
    · exact h.setState hm (h.notMem_toEstablish hne) .kDisconnecting _
    · exact h.setWorld rfl _

private theorem close (h : s.Inv n) {conn : ConnId} (hr : s.registered conn) :
    ∃ s', s.close conn = some s' ∧ s'.Inv n := by
  have hne := connState_of_registered hr
  have hclose : handleClose s.world conn = some (Server.setState s.world conn .kDisconnected) :=
    if_pos hr
  refine ⟨_, ?_, h.setState (h.made conn hne) (h.notMem_toEstablish hne) .kDisconnected
    (s.log ++ [.close conn])⟩
  simp [IoServer.close, hclose]

private theorem timer (h : s.Inv n) (wire : Wire) (i : Nat) : (s.timer wire i).Inv n := by
  unfold IoServer.timer
  split
  · next due key sender _ =>
    have hact := h.setActivity (l := 0) (a := .running none (stopRobHongbao wire key sender))
      (fun c p ha => by cases ha) fun p ha => by
        cases ha
        exact ⟨rfl, offTable_stopRobHongbao wire key sender⟩
    exact hact.setWorld (w := takeTimer s.world i due) rfl _
  · exact h

/-- What a thread is running ends, fails, or goes on. -/
theorem proceed (h : s.Inv n) {l : LoopId} {conn : Option ConnId} {rest : Op Unit}
    (ha : s.activity l = .running conn rest) (hn : ∀ e, rest ≠ .throw e) :
    ∃ s', s.proceed l conn rest = some s' ∧ s'.Inv n := by
  cases rest with
  | pure a =>
    exact ⟨_, rfl, h.setActivity (fun c p hp => by cases hp) fun p hp => by cases hp⟩
  | throw e => exact absurd rfl (hn e)
  | call c next =>
    obtain ⟨r, s', hs, hinv, hkept⟩ := h.command l c
    refine ⟨s'.setActivity l (.running conn (next r)), ?_, hinv.setActivity (fun d p hp => ?_)
      fun p hp => ?_⟩
    · simp [IoServer.proceed, hs]
    · cases hp
      obtain ⟨hm, hl⟩ := h.handling l d _ ha
      exact ⟨hkept.made hm, by rw [hkept.loopOf, hl]⟩
    · cases hp
      obtain ⟨hl, huses⟩ := h.timing l _ ha
      exact ⟨hl, huses.2 r⟩

end Inv

/-- The process does not survive the event: `nextConnId_` overflows, or a handler fails. -/
def Dies (s : IoServer) : IoEvent → Prop
  | .accept => s.activity 0 = .polling ∧ 2 ^ 31 ≤ s.nextConnId + 1
  | .step l => ∃ conn e, s.activity l = .running conn (.throw e)
  | _ => False

/-- Every step keeps the invariant or is one that the process does not survive. -/
theorem Inv.step (h : s.Inv n) (wire : Wire) {e : IoEvent} (hd : ¬ s.Dies e) :
    ∃ s', s.step wire e = some s' ∧ s'.Inv n := by
  cases e with
  | accept =>
    refine h.whenPolling fun ha => h.newConnection ?_
    exact Nat.lt_of_not_le fun hle => hd ⟨ha, hle⟩
  | functor l =>
    simp only [IoServer.step]
    split
    · exact ⟨s, rfl, h⟩
    · next task rest hq => exact h.whenPolling fun _ => h.functor hq
  | read conn signal =>
    simp only [IoServer.step]
    split
    · next hr => exact h.whenPolling fun _ => h.read wire hr signal
    · exact ⟨s, rfl, h⟩
  | close conn =>
    simp only [IoServer.step]
    split
    · next hr => exact h.whenPolling fun _ => h.close hr
    · exact ⟨s, rfl, h⟩
  | timer i => exact h.whenPolling fun _ => ⟨_, rfl, h.timer wire i⟩
  | step l =>
    simp only [IoServer.step]
    split
    · exact ⟨s, rfl, h⟩
    · next conn rest ha => exact h.proceed ha fun e he => hd ⟨conn, e, he ▸ ha⟩

private theorem step_eq_none_of_dies (wire : Wire) {e : IoEvent} (hd : s.Dies e) :
    s.step wire e = none := by
  cases e with
  | accept =>
    obtain ⟨ha, hle⟩ := hd
    simp only [IoServer.step, whenPolling, ha, IoServer.newConnection, guard,
      if_neg (Nat.not_lt_of_le hle)]
    rfl
  | step l =>
    obtain ⟨conn, e, ha⟩ := hd
    simp only [IoServer.step, ha]
    rfl
  | functor _ | read _ _ | close _ | timer _ => exact hd.elim

private theorem Inv.step_eq_none_iff (h : s.Inv n) (wire : Wire) (e : IoEvent) :
    s.step wire e = none ↔ s.Dies e := by
  refine ⟨fun hn => ?_, step_eq_none_of_dies wire⟩
  by_contra hd
  obtain ⟨s', hs, -⟩ := h.step wire hd
  cases hn.symm.trans hs

/-- Every event keeps the invariant. -/
theorem Inv.of_step (h : s.Inv n) (wire : Wire) {e : IoEvent} (hs : s.step wire e = some s') :
    s'.Inv n := by
  have hd : ¬ s.Dies e := fun hd => by cases (step_eq_none_of_dies wire hd).symm.trans hs
  obtain ⟨s₁, h₁, hinv⟩ := h.step wire hd
  obtain rfl := Option.some.inj (hs.symm.trans h₁)
  exact hinv

private theorem inv_run {wire : Wire} {w : World} (hw : ∀ conn, w.connState conn = .kConnecting)
    {s₀ : IoServer} (h₀ : start n w = some s₀) {events : List IoEvent}
    (hrun : run (IoServer.step wire) s₀ events = some s) : s.Inv n :=
  run_some_invariant (Inv n) (fun _ _ _ h (_ : True) hs => h.of_step wire hs) events
    (fun _ _ => trivial) (inv_start hw h₀) hrun

/-! ### Balance -/

/-- The number of connections that a loop has been given. -/
def load (s : IoServer) (l : LoopId) : Nat :=
  Nat.count (fun k => s.loopOf (k + 1) = l) (s.nextConnId - 1)

private theorem Inv.load_eq (h : s.Inv n) (hn : 0 < n) {i : Nat} (hi : i < n) :
    s.load (i + 1) = (s.nextConnId - 1) / n + if i < (s.nextConnId - 1) % n then 1 else 0 := by
  have hcount : s.load (i + 1) = Nat.count (· ≡ i [MOD n]) (s.nextConnId - 1) := by
    simp only [load, Nat.count_eq_card_filter_range]
    congr 1
    refine Finset.filter_congr fun k hk => ?_
    have hlt := Finset.mem_range.mp hk
    rw [h.placed.loopOf (k + 1) ⟨Nat.le_add_left 1 k, by omega⟩, loopNumber,
      if_neg (Nat.ne_of_gt hn), Nat.add_sub_cancel, Nat.add_right_cancel_iff, Nat.ModEq,
      Nat.mod_eq_of_lt hi]
  rw [hcount, Nat.count_modEq_card _ hn, Nat.mod_eq_of_lt hi]

/-- After any run, with any number of threads: the connections have been given to the loops in turn,
so that the loops have the same number of connections up to one; whatever is queued in a loop and
whatever its thread handles is about a connection of that loop, so that no assertion that a function
runs in the thread of its loop fails. The process ends only when a handler fails or `nextConnId_`
overflows. -/
theorem connections_stay_in_their_loops (wire : Wire) (numThreads : Nat) (w : World)
    (hw : ∀ conn, w.connState conn = .kConnecting) (s₀ s : IoServer)
    (h₀ : start numThreads w = some s₀) (events : List IoEvent)
    (hrun : run (IoServer.step wire) s₀ events = some s) :
    (∀ conn, s.Made conn → s.loopOf conn = loopNumber numThreads conn) ∧
      (∀ i, i < numThreads → s.load (i + 1) =
        (s.nextConnId - 1) / numThreads + if i < (s.nextConnId - 1) % numThreads then 1 else 0) ∧
      (∀ l, ∀ task ∈ s.queue l, s.loopOf task.conn = l) ∧
      (∀ l conn p, s.activity l = .running (some conn) p → s.loopOf conn = l) ∧
      ∀ e, s.step wire e = none ↔ s.Dies e := by
  have h : s.Inv numThreads := inv_run hw h₀ hrun
  refine ⟨h.placed.loopOf, fun i hi => h.load_eq (Nat.zero_lt_of_lt hi) hi,
    fun l task ht => (h.queued l task ht).2, fun l conn p ha => (h.handling l conn p ha).2,
    h.step_eq_none_iff wire⟩

/-- No connection has been made. -/
def noConnections : World := { connState := fun _ => .kConnecting }

/-- Three connections and two loops. -/
theorem connections_stay_in_their_loops_three :
    ∃ s₀ s, start (2 : Nat) noConnections = some s₀ ∧
      run (IoServer.step plainWire) s₀ [.accept, .accept, .accept] = some s ∧
      s.load 1 = 2 ∧ s.load 2 = 1 := by
  obtain ⟨s₀, h₀⟩ : ∃ s₀, start (2 : Nat) noConnections = some s₀ := ⟨_, start_eq 2 noConnections⟩
  have hthree : ∃ s, run (IoServer.step plainWire) s₀ [.accept, .accept, .accept] = some s ∧
      s.nextConnId = 4 := by
    rw [start_eq, Option.some.injEq] at h₀
    subst h₀
    exact ⟨_, rfl, rfl⟩
  obtain ⟨s, hrun, hnext⟩ := hthree
  obtain ⟨-, hload, -⟩ := connections_stay_in_their_loops plainWire 2 noConnections (fun _ => rfl)
    s₀ s h₀ [.accept, .accept, .accept] hrun
  rw [hnext] at hload
  exact ⟨s₀, s, h₀, hrun, hload 0 (by decide), hload 1 (by decide)⟩

/-! ### The table of connections and the threads -/

/-- With at most one thread for the connections, they all have the same loop. -/
theorem loopNumber_eq (hn : n ≤ 1) (conn : ConnId) : loopNumber n conn = n := by
  unfold loopNumber
  split
  · next h0 => exact h0.symm
  · next h0 =>
    obtain rfl : n = 1 := Nat.le_antisymm hn (Nat.pos_of_ne_zero h0)
    rw [Nat.mod_one]

/-- With one thread at most there is one loop. -/
theorem Inv.loopOf_eq (h : s.Inv n) (hn : n ≤ 1) {conn : ConnId} (hm : s.Made conn) :
    s.loopOf conn = n :=
  (h.placed.loopOf conn hm).trans (loopNumber_eq hn conn)

/-- The callback of a timer does not come to the table. -/
theorem Inv.not_atTable (h : s.Inv n) {l : LoopId} {p : Op Unit}
    (hp : s.activity l = .running none p) : ¬ s.AtTable l := by
  rintro ⟨conn, c, next, ha, hc⟩
  rw [ha] at hp
  cases hp
  have hoff := (h.timing l _ ha).2.1
  cases hoff.symm.trans hc

/-- Then only one thread comes to the table. -/
theorem Inv.eq_of_atTable (h : s.Inv n) (hn : n ≤ 1) {l : LoopId} (hl : s.AtTable l) : l = n := by
  have hnot := fun p hp => h.not_atTable (p := p) hp hl
  obtain ⟨conn, c, next, ha, -⟩ := hl
  cases conn with
  | none => exact absurd ha (hnot _)
  | some conn =>
    obtain ⟨hm, hloop⟩ := h.handling l conn _ ha
    rw [← hloop, h.loopOf_eq hn hm]

/-- Two connections are made and established. -/
theorem two_connections (wire : Wire) (w : World) (hw : ∀ conn, w.connState conn = .kConnecting)
    (hn : 2 ≤ n) {s₀ : IoServer} (h₀ : start n w = some s₀) :
    ∃ s, run (IoServer.step wire) s₀ [.accept, .accept, .functor 1, .functor 2] = some s ∧
      s.world.connState 1 = .kConnected ∧ s.world.connState 2 = .kConnected ∧
      s.loopOf 1 = 1 ∧ s.loopOf 2 = 2 ∧ ∀ l, s.activity l = .polling := by
  obtain ⟨k, rfl⟩ : ∃ k, n = k + 2 := ⟨n - 2, by omega⟩
  rw [start_eq, Option.some.injEq] at h₀
  subst h₀
  simp [run, IoServer.step, whenPolling, IoServer.newConnection, EventLoopThreadPool.getNextLoop,
    IoServer.runInLoop, guard, IoServer.perform, LoopTask.conn, connectEstablished, hw,
    Server.setState]

/-- A login starts with `connMap_[username] = conn`. -/
theorem step_login (wire : Wire) {conn : ConnId} (hc : s.world.connState conn = .kConnected)
    (hp : s.activity (s.loopOf conn) = .polling) (m : Login) :
    ∃ s', s.step wire (.read conn (.item ⟨.Login, m⟩)) = some s' ∧ s'.AtTable (s.loopOf conn) ∧
      s'.world = s.world ∧ s'.loopOf = s.loopOf ∧
      ∀ l, l ≠ s.loopOf conn → s'.activity l = s.activity l := by
  have hr : s.registered conn := .inl hc
  refine ⟨({ s with log := s.log ++ [.signal conn (.item ⟨.Login, m⟩)] } : IoServer).setActivity
    (s.loopOf conn) (.running (some conn) (login wire conn m)), ?_, ?_, rfl, rfl, fun l hl => ?_⟩
  · simp only [IoServer.step, if_pos hr, whenPolling, hp]
    rfl
  · exact ⟨some conn, .saveUsernameConn m.username conn, _, Function.update_self .., rfl⟩
  · exact Function.update_of_ne hl _ _

/-- Two logins in two threads come to the table at once. -/
theorem two_logins_meet (wire : Wire) (w : World) (hw : ∀ conn, w.connState conn = .kConnecting)
    (hn : 2 ≤ n) {s₀ : IoServer} (h₀ : start n w = some s₀) (m₁ m₂ : Login) :
    ∃ events s, run (IoServer.step wire) s₀
        (events ++ [.read 1 (.item ⟨.Login, m₁⟩), .read 2 (.item ⟨.Login, m₂⟩)]) = some s ∧
      s.AtTable 1 ∧ s.AtTable 2 := by
  obtain ⟨s, hrun, hc₁, hc₂, hl₁, hl₂, hp⟩ := two_connections wire w hw hn h₀
  obtain ⟨s₁, h₁, ht₁, hw₁, hloop₁, ha₁⟩ := step_login wire hc₁ (hp _) m₁
  have hp₂ : s₁.activity (s₁.loopOf 2) = .polling := by
    rw [hloop₁, hl₂, ha₁ 2 (by rw [hl₁]; decide)]
    exact hp 2
  obtain ⟨s₂, h₂, ht₂, -, -, ha₂⟩ := step_login wire (hw₁ ▸ hc₂) hp₂ m₂
  rw [hloop₁, hl₂] at ht₂ ha₂
  rw [hl₁] at ht₁
  refine ⟨[.accept, .accept, .functor 1, .functor 2], s₂, ?_, ?_, ht₂⟩
  · rw [run_append, hrun]
    simp only [Option.bind_some, run, h₁, h₂]
  · obtain ⟨conn, c, next, hrunning, hc⟩ := ht₁
    exact ⟨conn, c, next, (ha₂ 1 (by decide)).trans hrunning, hc⟩

/-- `connMap_` has no lock. In every run the threads come to it one at a time exactly if there is at
most one thread besides the base loop's; with more, any two logins on the first two connections meet
there. The callbacks of timers run in the base loop and never come to it. -/
theorem table_is_exclusive_iff (wire : Wire) (numThreads : Nat) (w : World)
    (hw : ∀ conn, w.connState conn = .kConnecting) (s₀ : IoServer)
    (h₀ : start numThreads w = some s₀) :
    ((∀ events s, run (IoServer.step wire) s₀ events = some s →
        ∀ l l', s.AtTable l → s.AtTable l' → l = l') ↔ numThreads ≤ 1) ∧
    (2 ≤ numThreads → ∀ m₁ m₂ : Login, ∃ events s, run (IoServer.step wire) s₀
        (events ++ [.read 1 (.item ⟨.Login, m₁⟩), .read 2 (.item ⟨.Login, m₂⟩)]) = some s ∧
      s.AtTable 1 ∧ s.AtTable 2) ∧
    ∀ events s, run (IoServer.step wire) s₀ events = some s →
      ∀ l p, s.activity l = .running none p → l = 0 ∧ ¬ s.AtTable l := by
  refine ⟨⟨fun h => ?_, fun hn events s hrun l l' hl hl' => ?_⟩,
    fun hn m₁ m₂ => two_logins_meet wire w hw hn h₀ m₁ m₂, fun events s hrun l p hp => ?_⟩
  · by_contra hn
    obtain ⟨events, s, hrun, h₁, h₂⟩ :=
      two_logins_meet wire w hw (Nat.lt_of_not_le hn) h₀ {} {}
    exact absurd (h _ s hrun 1 2 h₁ h₂) (by decide)
  · have h : s.Inv numThreads := inv_run hw h₀ hrun
    rw [h.eq_of_atTable hn hl, h.eq_of_atTable hn hl']
  · have h : s.Inv numThreads := inv_run hw h₀ hrun
    exact ⟨(h.timing l p hp).1, h.not_atTable hp⟩

/-- Two threads. -/
theorem table_is_exclusive_iff_two : ∃ s₀, start (2 : Nat) noConnections = some s₀ ∧
    ¬ ∀ events s, run (IoServer.step plainWire) s₀ events = some s →
      ∀ l l', s.AtTable l → s.AtTable l' → l = l' := by
  refine ⟨_, start_eq 2 noConnections, fun h => ?_⟩
  have hle :=
    (table_is_exclusive_iff plainWire 2 noConnections (fun _ => rfl) _ (start_eq ..)).1.mp h
  exact absurd hle (by decide)

end IoServer

end IMServer.Server

import IMServer.Server.IoThreads

/-!
# A server with one thread

With no threads but that of the base loop, or with one other thread and as long as no timer runs
(`server/src/TcpServer.cc:63–90`, `server/src/Server.cc:40`), one thread does everything that
changes the world. The threads of `IMServer.Server.IoThreads` then do what a server does that takes
one event after the other and finishes each before the next, which is how
`IMServer.Server.Handlers` and `IMServer.Server.Requests` describe it.
-/

namespace IMServer.Server

open IMServer.Base IMServer.Net IMServer.Business IMServer.Reactor

/-- The server with one thread. -/
def serialStep (wire : Wire) (w : World) : SerialEvent → Option World
  | .established conn => connectEstablished w conn
  | .signal conn signal => signalStep wire w (conn, signal)
  | .close conn => handleClose w conn
  | .timer i =>
    match w.timers[i]? with
    | some (due, key, sender) =>
      returned (Prog.run exec (stopRobHongbao wire key sender) (takeTimer w i due))
    | none => some w

namespace IoServer

variable {n : Nat} {s s' : IoServer}

/-- The world when a thread has finished what it is running. -/
def finish (w : World) : Activity → Option World
  | .polling => some w
  | .running _ rest => returned (Prog.run exec rest w)

/-- One thread does everything, one thing after the other. -/
structure Serial (wire : Wire) (w₀ : World) (n : Nat) (s : IoServer) : Prop where
  inv : s.Inv n
  alone : ∀ l, l ≠ n → s.activity l = .polling
  /-- Nothing is sent through a queue. -/
  direct : ∀ l, ∀ task ∈ s.queue l, ∃ conn, task = .connectEstablished conn
  done : finish s.world (s.activity n) = run (serialStep wire) w₀ s.log

section Serial

variable {wire : Wire} {w₀ : World}

private theorem Serial.eq_of_running (h : Serial wire w₀ n s) {l : LoopId} {conn : Option ConnId}
    {rest : Op Unit} (ha : s.activity l = .running conn rest) : l = n := by
  by_contra hne
  cases (h.alone l hne).symm.trans ha

/-- Something new is begun while the thread is polling. -/
theorem Serial.begin (h : Serial wire w₀ n s) (hp : s.activity n = .polling) (e : SerialEvent)
    (hinv : s'.Inv n) (halone : ∀ l, l ≠ n → s'.activity l = .polling)
    (hdirect : ∀ l, ∀ task ∈ s'.queue l, ∃ conn, task = .connectEstablished conn)
    (hlog : s'.log = s.log ++ [e])
    (hdone : finish s'.world (s'.activity n) = serialStep wire s.world e) :
    Serial wire w₀ n s' := by
  have hold := h.done
  rw [hp] at hold
  refine ⟨hinv, halone, hdirect, ?_⟩
  rw [hdone, hlog, run_append, ← hold]
  simp only [finish, run, Option.bind_some, Option.bind_fun_some]

/-- A connection is established by the thread of all connections. -/
theorem Serial.perform (h : Serial wire w₀ n s) (hp : s.activity n = .polling) {l : LoopId}
    {conn : ConnId} (hs : s.perform l (.connectEstablished conn) = some s') (hinv : s'.Inv n) :
    Serial wire w₀ n s' := by
  simp only [IoServer.perform, Option.bind_eq_bind, Option.bind_eq_some_iff,
    Option.some.injEq] at hs
  obtain ⟨-, -, world, hworld, rfl⟩ := hs
  refine h.begin hp (.established conn) hinv h.alone h.direct rfl ?_
  rw [hp]
  exact hworld.symm

/-- The one thread sends directly. -/
theorem Inv.command_eq (h : s.Inv n) (hn : n ≤ 1) (c : Cmd) :
    s.command n c = some ((exec c s.world).1, { s with world := (exec c s.world).2 }) := by
  cases c with
  | send conn message =>
    simp only [IoServer.command, exec]
    split
    · next hc =>
      have hloop : s.loopOf conn = n := h.loopOf_eq hn (h.made conn (by rw [hc]; decide))
      simp [IoServer.runInLoop, IoServer.perform, LoopTask.conn, hloop, hc]
    · rfl
  | _ => rfl

private theorem Serial.newConnection
    (h : Serial wire w₀ n s) (hn : n ≤ 1) (hp : s.activity 0 = .polling)
    (hs : s.newConnection = some s') (hinv : s'.Inv n) : Serial wire w₀ n s' := by
  obtain ⟨pool, hnext, hturn, hloops, hbase⟩ := h.inv.placed.turn.getNextLoop
  have hplace := h.inv.place hturn hloops hbase
  rw [loopFor_eq h.inv.placed.base h.inv.placed.loops, loopNumber_eq hn] at hnext
  rw [loopNumber_eq hn] at hplace
  simp only [IoServer.newConnection, hnext, Option.bind_eq_bind, Option.bind_some,
    Option.bind_eq_some_iff] at hs
  obtain ⟨-, -, hs⟩ := hs
  have hplaced : Serial wire w₀ n { s with
      pool, nextConnId := s.nextConnId + 1
      loopOf := Function.update s.loopOf s.nextConnId n } :=
    ⟨hplace, h.alone, h.direct, h.done⟩
  unfold IoServer.runInLoop at hs
  split at hs
  · next h0 =>
    subst h0
    exact hplaced.perform hp hs hinv
  · cases hs
    refine ⟨hinv, h.alone, fun l task ht => ?_, h.done⟩
    by_cases hl : l = n
    · subst hl
      simp only [Function.update_self, List.mem_append, List.mem_singleton] at ht
      rcases ht with ht | rfl
      · exact h.direct l task ht
      · exact ⟨_, rfl⟩
    · simp only [Function.update_of_ne hl] at ht
      exact h.direct l task ht

private theorem Serial.functor (h : Serial wire w₀ n s) (hn : n ≤ 1) {l : LoopId} {task : LoopTask}
    {rest : List LoopTask} (hq : s.queue l = task :: rest) (hp : s.activity l = .polling)
    (hs : ({ s with queue := Function.update s.queue l rest } : IoServer).perform l task = some s')
    (hinv : s'.Inv n) : Serial wire w₀ n s' := by
  have hmem : task ∈ s.queue l := by
    rw [hq]
    exact List.mem_cons_self
  obtain ⟨conn, rfl⟩ := h.direct l task hmem
  obtain ⟨hm, hl⟩ := h.inv.queued l _ hmem
  have hln : l = n := hl.symm.trans (h.inv.loopOf_eq hn hm)
  have hdirect : ∀ l', ∀ t ∈ Function.update s.queue l rest l',
      ∃ conn, t = .connectEstablished conn := by
    intro l' t ht
    by_cases heq : l' = l
    · subst heq
      rw [Function.update_self] at ht
      refine h.direct l' t ?_
      rw [hq]
      exact List.mem_cons_of_mem _ ht
    · rw [Function.update_of_ne heq] at ht
      exact h.direct l' t ht
  have hpopped : Serial wire w₀ n { s with queue := Function.update s.queue l rest } :=
    ⟨h.inv.pop hq, h.alone, hdirect, h.done⟩
  exact hpopped.perform (hln ▸ hp) hs hinv

private theorem alone_setActivity
    (h : ∀ l, l ≠ n → s.activity l = .polling) (a : Activity) (l : LoopId)
    (hl : l ≠ n) : (s.setActivity n a).activity l = .polling :=
  (Function.update_of_ne hl _ _).trans (h l hl)

private theorem Serial.read (h : Serial wire w₀ n s) {conn : ConnId} (hloop : s.loopOf conn = n)
    (hp : s.activity n = .polling) {signal : Signal Request ErrorCode}
    (hs : s.read wire conn signal = some s') (hinv : s'.Inv n) : Serial wire w₀ n s' := by
  cases signal with
  | item message =>
    obtain ⟨handler, hh⟩ := exists_handler wire message
    simp only [IoServer.read, hh, hloop, Option.bind_eq_bind, Option.bind_some,
      Option.some.injEq] at hs
    subst hs
    refine h.begin hp (.signal conn (.item message)) hinv (alone_setActivity h.alone _) h.direct
      rfl ?_
    simp only [IoServer.setActivity, Function.update_self, finish, serialStep, signalStep, hh,
      Option.bind_eq_bind, Option.bind_some]
  | error e =>
    simp only [IoServer.read, Option.some.injEq] at hs
    subst hs
    refine h.begin hp (.signal conn (.error e)) hinv h.alone h.direct rfl ?_
    rw [hp]
    rfl

private theorem Serial.close (h : Serial wire w₀ n s) {conn : ConnId} (hp : s.activity n = .polling)
    (hs : s.close conn = some s') (hinv : s'.Inv n) : Serial wire w₀ n s' := by
  simp only [IoServer.close, Option.bind_eq_bind, Option.bind_eq_some_iff,
    Option.some.injEq] at hs
  obtain ⟨world, hworld, rfl⟩ := hs
  refine h.begin hp (.close conn) hinv h.alone h.direct rfl ?_
  rw [hp]
  exact hworld.symm

private theorem Serial.timer (h : Serial wire w₀ 0 s) (hp : s.activity 0 = .polling) (i : Nat)
    (hinv : (s.timer wire i).Inv 0) : Serial wire w₀ 0 (s.timer wire i) := by
  unfold IoServer.timer at hinv ⊢
  split
  · next due key sender ht =>
    rw [ht] at hinv
    refine h.begin hp (.timer i) hinv (alone_setActivity h.alone _) h.direct rfl ?_
    simp only [IoServer.setActivity, Function.update_self, finish, serialStep, ht]
  · exact h

private theorem Serial.proceed (h : Serial wire w₀ n s) (hn : n ≤ 1) {conn : Option ConnId}
    {rest : Op Unit} (ha : s.activity n = .running conn rest)
    (hs : s.proceed n conn rest = some s') (hinv : s'.Inv n) : Serial wire w₀ n s' := by
  have hdone := h.done
  rw [ha] at hdone
  cases rest with
  | pure a =>
    cases hs
    refine ⟨hinv, alone_setActivity h.alone _, h.direct, ?_⟩
    simp only [IoServer.setActivity, Function.update_self]
    exact hdone
  | throw e => cases hs
  | call c next =>
    simp only [IoServer.proceed, h.inv.command_eq hn, Option.bind_eq_bind, Option.bind_some,
      Option.some.injEq] at hs
    subst hs
    refine ⟨hinv, alone_setActivity h.alone _, h.direct, ?_⟩
    simp only [IoServer.setActivity, Function.update_self]
    exact hdone

/-- A step of a thread that was polling, or no step. -/
theorem whenPolling_eq {l : LoopId} {x : Option IoServer} (hs : s.whenPolling l x = some s') :
    s.activity l = .polling ∧ x = some s' ∨ s' = s := by
  unfold IoServer.whenPolling at hs
  split at hs
  · next ha => exact .inl ⟨ha, hs⟩
  · exact .inr (Option.some.inj hs).symm

private theorem Inv.loopOf_registered (h : s.Inv n) (hn : n ≤ 1) {conn : ConnId}
    (hr : s.registered conn) : s.loopOf conn = n :=
  h.loopOf_eq hn (h.made conn (connState_of_registered hr))

/-- Every step is one of the server with one thread, or a part of one. -/
theorem Serial.step (h : Serial wire w₀ n s) (hn : n ≤ 1) {e : IoEvent}
    (he : ∀ i, e = .timer i → n = 0) (hs : s.step wire e = some s') : Serial wire w₀ n s' := by
  have hinv := h.inv.of_step wire hs
  cases e with
  | accept =>
    rcases whenPolling_eq hs with ⟨hp, hs⟩ | rfl
    · exact h.newConnection hn hp hs hinv
    · exact h
  | functor l =>
    simp only [IoServer.step] at hs
    split at hs
    · cases hs
      exact h
    · next task rest hq =>
      rcases whenPolling_eq hs with ⟨hp, hs⟩ | rfl
      · exact h.functor hn hq hp hs hinv
      · exact h
  | read conn signal =>
    simp only [IoServer.step] at hs
    split at hs
    · next hr =>
      have hloop := h.inv.loopOf_registered hn hr
      rw [hloop] at hs
      rcases whenPolling_eq hs with ⟨hp, hs⟩ | rfl
      · exact h.read hloop hp hs hinv
      · exact h
    · cases hs
      exact h
  | close conn =>
    simp only [IoServer.step] at hs
    split at hs
    · next hr =>
      rw [h.inv.loopOf_registered hn hr] at hs
      rcases whenPolling_eq hs with ⟨hp, hs⟩ | rfl
      · exact h.close hp hs hinv
      · exact h
    · cases hs
      exact h
  | timer i =>
    obtain rfl := he i rfl
    rcases whenPolling_eq hs with ⟨hp, hs⟩ | rfl
    · cases hs
      exact h.timer hp i hinv
    · exact h
  | step l =>
    simp only [IoServer.step] at hs
    split at hs
    · cases hs
      exact h
    · next conn rest ha =>
      obtain rfl := h.eq_of_running ha
      exact h.proceed hn ha hs hinv

end Serial

private theorem serial_start
    {wire : Wire} {w : World} (hw : ∀ conn, w.connState conn = .kConnecting)
    (h₀ : start n w = some s) : Serial wire w n s := by
  have hinv := inv_start hw h₀
  rw [start_eq, Option.some.injEq] at h₀
  subst h₀
  exact ⟨hinv, fun _ _ => rfl, fun _ task ht => (by cases ht), rfl⟩

/-- With no thread besides the base loop's, or with one and as long as no timer runs, whatever the
interleaving of the threads: no two threads ever run handlers, and the world, once the handler that
is running has finished, is the one that a server with one thread reaches when it does what has been
begun, in the same order, each thing as a whole. -/
theorem one_thread_is_serial (wire : Wire) (numThreads : Nat) (hn : numThreads ≤ 1) (w : World)
    (hw : ∀ conn, w.connState conn = .kConnecting) (s₀ s : IoServer)
    (h₀ : start numThreads w = some s₀) (events : List IoEvent)
    (ht : ∀ i, .timer i ∈ events → numThreads = 0)
    (hrun : run (IoServer.step wire) s₀ events = some s) :
    (∀ l, l ≠ numThreads → s.activity l = .polling) ∧
      finish s.world (s.activity numThreads) = run (serialStep wire) w s.log := by
  have hpre : ∀ e ∈ events, ∀ i, e = .timer i → numThreads = 0 :=
    fun e he i hi => ht i (hi ▸ he)
  have hserial : Serial wire w numThreads s :=
    run_some_invariant (Serial wire w numThreads)
      (fun _ e _ h (he : ∀ i, e = .timer i → numThreads = 0) hs => h.step hn he hs) events hpre
      (serial_start hw h₀) hrun
  exact ⟨hserial.alone, hserial.done⟩

/-- A login is handled while a second connection is made. -/
def loginAndAccept : List IoEvent :=
  [.accept, .functor 1, .read 1 (.item ⟨.Login, { username := "alice" }⟩), .step 1, .step 1,
    .accept] ++ List.replicate 12 (.step 1) ++ [.functor 1]

/-- A login and another connection. -/
theorem one_thread_is_serial_login :
    ∃ s₀ s, start (1 : Nat) noConnections = some s₀ ∧
      run (IoServer.step plainWire) s₀ loginAndAccept = some s ∧
      run (serialStep plainWire) noConnections [.established 1,
        .signal 1 (.item ⟨.Login, { username := "alice" }⟩), .established 2] = some s.world ∧
      s.world.connMap "alice" = some 1 ∧ s.world.sent.length = 1 := by
  obtain ⟨s₀, h₀⟩ : ∃ s₀, start (1 : Nat) noConnections = some s₀ := ⟨_, start_eq 1 noConnections⟩
  have hend : ∃ s, run (IoServer.step plainWire) s₀ loginAndAccept = some s ∧
      s.activity 1 = .polling ∧ s.log = [.established 1,
        .signal 1 (.item ⟨.Login, { username := "alice" }⟩), .established 2] ∧
      s.world.connMap "alice" = some 1 ∧ s.world.sent.length = 1 := by
    rw [start_eq, Option.some.injEq] at h₀
    subst h₀
    exact ⟨_, rfl, rfl, rfl, rfl, rfl⟩
  obtain ⟨s, hrun, hp, hlog, hmap, hsent⟩ := hend
  have hserial := (one_thread_is_serial plainWire 1 (Nat.le_refl 1) noConnections (fun _ => rfl) s₀
    s h₀ loginAndAccept (fun i hi => by simp [loginAndAccept] at hi) hrun).2
  rw [hp, hlog] at hserial
  exact ⟨s₀, s, h₀, hrun, hserial.symm, hmap, hsent⟩

end IoServer

end IMServer.Server

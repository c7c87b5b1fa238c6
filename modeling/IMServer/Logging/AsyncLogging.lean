import IMServer.Base.Chunks
import IMServer.Base.Run

/-!
# The asynchronous log

`server/src/AsyncLogging.cc` and `FixedBuffer` of `LogStream.h:21–88`. Threads append lines to
`currentBuffer_`; the thread of the log takes the full buffers and the current one, hands them to
`LogFile::append`, and gives two of them back empty. A step is a critical section, one test of
`running_`, one call of `LogFile::append`, or the end of an iteration; it fails when an assertion
of the source does or a null pointer would be used.

No line is lost, repeated or split on the way to the file as long as no more than 25 buffers wait.
When the log is stopped, what was appended since the last swap is written only if the thread has
tested `running_` before.
-/

namespace IMServer.Logging

open IMServer.Base

/-! ### Buffers -/

/-- `LogStream.h:19`. -/
def kLargeBuffer : Nat := 4000 * 1000

/-- The part of a buffer that has been written to; it never exceeds the size. -/
structure FixedBuffer (SIZE : Nat) where
  data : List UInt8
  fits : data.length ≤ SIZE

namespace FixedBuffer

variable {SIZE : Nat}

/-- A new buffer, and a buffer after `reset`. -/
def new : FixedBuffer SIZE := ⟨[], Nat.zero_le SIZE⟩

def avail (b : FixedBuffer SIZE) : Nat := SIZE - b.data.length

/-- A line that does not fit is dropped; `LogStream.h:36–44`. -/
def append (b : FixedBuffer SIZE) (line : List UInt8) : FixedBuffer SIZE :=
  if h : line.length < b.avail then
    ⟨b.data ++ line, by rw [List.length_append]; unfold avail at h; omega⟩
  else b

private theorem data_append {b : FixedBuffer SIZE} {line : List UInt8} (h : line.length < b.avail) :
    (b.append line).data = b.data ++ line := by
  rw [append, dif_pos h]

end FixedBuffer

abbrev LogBuffer := FixedBuffer kLargeBuffer

/-! ### The log -/

/-- Where the thread of the log is. -/
inductive Position where
  /-- Before the test of `running_`; line 71. -/
  | test
  /-- Before the critical section. -/
  | enter
  /-- In `waitForSeconds`. -/
  | waiting
  /-- After the critical section. -/
  | swapped
  /-- Before the output of the buffer of this index. -/
  | writing (next : Nat)
  /-- The thread has ended. -/
  | done
  deriving DecidableEq, Repr

/-- The variables of `threadFunc`; lines 64–70. -/
structure LogThread where
  position : Position
  newBuffer1 : Option LogBuffer
  newBuffer2 : Option LogBuffer
  buffersToWrite : List LogBuffer

/-- `AsyncLogging.h:55–65`, the thread, and what `LogFile::append` was given. -/
structure AsyncLogging where
  running : Bool
  currentBuffer : LogBuffer
  nextBuffer : Option LogBuffer
  buffers : List LogBuffer
  thread : LogThread
  /-- The arguments of the calls of `LogFile::append`, oldest first. -/
  output : List (List UInt8)

/-- A step of a thread. -/
inductive LogEvent where
  | append (line : List UInt8)
  /-- The thread of the log tests `running_`. -/
  | test
  /-- It enters its critical section. -/
  | lock
  /-- It has been notified, the time is over, or it wakes up for no reason. -/
  | wake
  /-- It has left its critical section; `now` is the text of the time. -/
  | check (now : List UInt8)
  /-- It hands a buffer to `LogFile::append`. -/
  | write
  /-- It has written all buffers. -/
  | recycle
  /-- `stop`, up to `join`. -/
  | stop
  deriving DecidableEq, Repr

namespace AsyncLogging

/-- The log when `start` has returned. -/
def start : AsyncLogging where
  running := true
  currentBuffer := .new
  nextBuffer := some .new
  buffers := []
  thread := ⟨.test, some .new, some .new, []⟩
  output := []

/-- `AsyncLogging.cc:30–55`. -/
def append (s : AsyncLogging) (line : List UInt8) : AsyncLogging :=
  if line.length < s.currentBuffer.avail then
    { s with currentBuffer := s.currentBuffer.append line }
  else
    { s with
      buffers := s.buffers ++ [s.currentBuffer]
      currentBuffer := (s.nextBuffer.getD .new).append line
      nextBuffer := none }

/-- The thread goes on to `position`. -/
def goto (s : AsyncLogging) (position : Position) : AsyncLogging :=
  { s with thread := { s.thread with position } }

/-- The test of `running_` and the assertions at the beginning of an iteration; lines 71–75. -/
def test (s : AsyncLogging) : Option AsyncLogging :=
  if s.running then
    if s.thread.newBuffer1.any (·.data.isEmpty) ∧ s.thread.newBuffer2.any (·.data.isEmpty) ∧
        s.thread.buffersToWrite.isEmpty then some (s.goto .enter)
    else none
  else some (s.goto .done)

/-- The critical section after the wait; lines 84–90. -/
def swap (s : AsyncLogging) : Option AsyncLogging := do
  let currentBuffer ← s.thread.newBuffer1
  some { s with
    currentBuffer
    nextBuffer := if s.nextBuffer.isSome then s.nextBuffer else s.thread.newBuffer2
    buffers := s.thread.buffersToWrite
    thread :=
      { position := .swapped
        newBuffer1 := none
        newBuffer2 := if s.nextBuffer.isSome then s.thread.newBuffer2 else none
        buffersToWrite := s.buffers ++ [s.currentBuffer] } }

/-- The message about `n` dropped buffers, cut to the size of `buf`; lines 97–102. -/
def dropped (now : List UInt8) (n : Nat) : List UInt8 :=
  ("Dropped log messages at ".toUTF8.toList ++ now ++
    (", " ++ toString n ++ " larger buffers\n").toUTF8.toList).take 255

/-- Too many buffers are dropped; lines 93–104. -/
def check (s : AsyncLogging) (now : List UInt8) : Option AsyncLogging :=
  if s.thread.buffersToWrite.isEmpty then none
  else if 25 < s.thread.buffersToWrite.length then
    some { s with
      thread :=
        { s.thread with
          position := .writing 0
          buffersToWrite := s.thread.buffersToWrite.take 2 }
      output := s.output ++ [dropped now (s.thread.buffersToWrite.length - 2)] }
  else some (s.goto (.writing 0))

/-- Take the last buffer back, empty, unless there is one already; lines 120–126, 128–134. -/
def refill (newBuffer : Option LogBuffer) (buffersToWrite : List LogBuffer) :
    Option (LogBuffer × List LogBuffer) :=
  match newBuffer with
  | some b => some (b, buffersToWrite)
  | none => if buffersToWrite.isEmpty then none else some (.new, buffersToWrite.dropLast)

/-- The end of an iteration; lines 113–137. -/
def recycle (s : AsyncLogging) : Option AsyncLogging := do
  let (newBuffer1, rest) ← refill s.thread.newBuffer1 (s.thread.buffersToWrite.take 2)
  let (newBuffer2, _) ← refill s.thread.newBuffer2 rest
  some { s with thread := ⟨.test, some newBuffer1, some newBuffer2, []⟩ }

/-- A step that cannot happen leaves everything as it is. -/
def step (s : AsyncLogging) (e : LogEvent) : Option AsyncLogging :=
  match e, s.thread.position with
  | .append line, _ => some (s.append line)
  | .test, .test => s.test
  | .lock, .enter => if s.buffers.isEmpty then some (s.goto .waiting) else s.swap
  | .wake, .waiting => s.swap
  | .check now, .swapped => s.check now
  | .write, .writing next =>
    match s.thread.buffersToWrite[next]? with
    | some b => some { s.goto (.writing (next + 1)) with output := s.output ++ [b.data] }
    | none => some s
  | .recycle, .writing next =>
    if next = s.thread.buffersToWrite.length then s.recycle else some s
  | .stop, _ => some { s with running := false }
  | _, _ => some s

end AsyncLogging

/-! ### The buffers are recycled -/

namespace LogThread

/-- The buffers the thread has taken and not yet handed on. -/
def unwritten (t : LogThread) : List LogBuffer :=
  match t.position with
  | .writing next => t.buffersToWrite.drop next
  | _ => t.buffersToWrite

/-- The thread has two empty buffers and nothing to write. -/
structure Ready (t : LogThread) : Prop where
  newBuffer1 : t.newBuffer1 = some .new
  newBuffer2 : t.newBuffer2 = some .new
  empty : t.buffersToWrite = []

/-- The thread has given its empty buffers away and will get as many back. -/
structure Taken (t : LogThread) : Prop where
  newBuffer1 : t.newBuffer1 = none
  nonempty : t.buffersToWrite ≠ []
  newBuffer2 : t.newBuffer2 = some .new ∨ t.newBuffer2 = none ∧ 2 ≤ t.buffersToWrite.length

/-- What the thread holds at each of its positions. -/
def Holds (t : LogThread) : Prop :=
  match t.position with
  | .test | .enter | .waiting => t.Ready
  | .swapped => t.Taken
  | .writing next => t.Taken ∧ next ≤ t.buffersToWrite.length
  | .done => t.buffersToWrite = []

variable {t : LogThread}

private theorem Holds.ready (h : t.Holds)
    (hp : t.position = .test ∨ t.position = .enter ∨ t.position = .waiting) : t.Ready := by
  rcases hp with hp | hp | hp <;> simpa only [Holds, hp] using h

private theorem Holds.taken (h : t.Holds)
    (hp : t.position = .swapped ∨ ∃ next, t.position = .writing next) : t.Taken := by
  rcases hp with hp | ⟨next, hp⟩
  · simpa only [Holds, hp] using h
  · rw [Holds, hp] at h
    exact h.1

private theorem Holds.unwritten_eq_nil (h : t.Holds)
    (hp : t.position = .test ∨ t.position = .enter ∨ t.position = .waiting) :
    t.unwritten = [] := by
  have hr := (h.ready hp).empty
  rcases hp with hp | hp | hp <;> simp only [unwritten, hp, hr]

end LogThread

/-- The line a step appends. -/
def LogEvent.lines : LogEvent → List (List UInt8)
  | .append line => [line]
  | _ => []

/-- Lines are shorter than a large buffer. -/
def LogEvent.Short (e : LogEvent) : Prop :=
  ∀ line ∈ e.lines, line.length < kLargeBuffer
  deriving Decidable

namespace AsyncLogging

/-- What `LogFile::append` was given and what still waits, in the order of the file. -/
def chunks (s : AsyncLogging) : List (List UInt8) :=
  s.output ++ (s.thread.unwritten ++ s.buffers ++ [s.currentBuffer]).map (·.data)

/-- The second buffer of the producers is empty, or it is in use and a full one waits. -/
structure Inv (s : AsyncLogging) (lines : List (List UInt8)) : Prop where
  holds : s.thread.Holds
  nextBuffer : s.nextBuffer = some .new ∨ s.nextBuffer = none ∧ s.buffers ≠ []
  chunked : Chunked s.chunks lines

/-- The thread of the log finds more than 25 buffers to write. -/
def Overflows (s : AsyncLogging) : LogEvent → Prop
  | .check _ => s.thread.position = .swapped ∧ 25 < s.thread.buffersToWrite.length
  | _ => False

instance (s : AsyncLogging) : (e : LogEvent) → Decidable (s.Overflows e)
  | .check _ => inferInstanceAs (Decidable (_ ∧ _))
  | .append _ | .test | .lock | .wake | .write | .recycle | .stop => .isFalse id

/-- A step is admitted when its line is short and not too many buffers wait. -/
def Admits (s : AsyncLogging) (e : LogEvent) : Prop := e.Short ∧ ¬ s.Overflows e
  deriving Decidable

variable {s s' : AsyncLogging} {lines : List (List UInt8)} {line now : List UInt8}

private theorem inv_start : start.Inv [] :=
  ⟨⟨rfl, rfl, rfl⟩, .inl rfl, [[]], rfl, rfl⟩

/-- The thread of the log sees nothing of an append. -/
@[simp] theorem append_thread : (s.append line).thread = s.thread := by
  unfold append
  split <;> rfl

private theorem Inv.chunked_append (h : s.Inv lines) (hl : line.length < kLargeBuffer) :
    Chunked (s.append line).chunks (lines ++ [line]) := by
  have hc := h.chunked
  simp only [chunks, List.map_append, ← List.append_assoc, List.map_singleton] at hc
  unfold AsyncLogging.append
  split
  · next hfit => simpa [chunks, FixedBuffer.data_append hfit] using hc.extend line
  · have hnew : s.nextBuffer.getD .new = .new := by
      rcases h.nextBuffer with hn | ⟨hn, -⟩ <;> rw [hn] <;> rfl
    have hdata : ((FixedBuffer.new : LogBuffer).append line).data = line :=
      FixedBuffer.data_append hl
    simpa [chunks, hnew, hdata] using hc.push line

private theorem Inv.append (h : s.Inv lines) (hl : line.length < kLargeBuffer) :
    (s.append line).Inv (lines ++ [line]) := by
  refine ⟨by rw [append_thread]; exact h.holds, ?_, h.chunked_append hl⟩
  unfold AsyncLogging.append
  split
  · exact h.nextBuffer
  · exact .inr ⟨rfl, by simp⟩

/-- A step of the thread that changes neither what it holds nor what waits. -/
theorem Inv.goto {position : Position} (h : s.Inv lines) (hholds : (s.goto position).thread.Holds)
    (hu : (s.goto position).thread.unwritten = s.thread.unwritten) :
    (s.goto position).Inv lines :=
  ⟨hholds, h.nextBuffer, by have hc := h.chunked; rw [chunks] at hc ⊢; rw [hu]; exact hc⟩

private theorem Inv.test (h : s.Inv lines) (hp : s.thread.position = .test) :
    ∃ s', s.test = some s' ∧ s'.Inv lines := by
  have hr := h.holds.ready (.inl hp)
  unfold AsyncLogging.test
  split
  · rw [if_pos ⟨by rw [hr.newBuffer1]; rfl, by rw [hr.newBuffer2]; rfl, by rw [hr.empty]; rfl⟩]
    exact ⟨_, rfl, h.goto ⟨hr.newBuffer1, hr.newBuffer2, hr.empty⟩
      (by simp [LogThread.unwritten, AsyncLogging.goto, hp])⟩
  · exact ⟨_, rfl, h.goto hr.empty (by simp [LogThread.unwritten, AsyncLogging.goto, hp])⟩

/-- The swap leaves the producers two empty buffers, or one and a second one in reserve. -/
theorem Inv.swap (h : s.Inv lines)
    (hp : s.thread.position = .enter ∨ s.thread.position = .waiting) :
    ∃ s', s.swap = some s' ∧ s'.Inv lines := by
  have hr := h.holds.ready (.inr hp)
  have hu := h.holds.unwritten_eq_nil (.inr hp)
  unfold AsyncLogging.swap
  rw [hr.newBuffer1, hr.newBuffer2, hr.empty]
  refine ⟨_, rfl, ⟨rfl, by simp, ?_⟩, .inl ?_, ?_⟩
  · rcases h.nextBuffer with hn | ⟨hn, hb⟩
    · exact .inl (by simp [hn])
    · refine .inr ⟨by simp [hn], ?_⟩
      have hpos := List.length_pos_iff.mpr hb
      simp only [List.length_append, List.length_singleton]
      omega
  · rcases h.nextBuffer with hn | ⟨hn, -⟩ <;> simp [hn]
  · have hc := h.chunked.push_nil
    rw [chunks, hu] at hc
    simpa [chunks, LogThread.unwritten, FixedBuffer.new] using hc

private theorem Inv.check (h : s.Inv lines) (hp : s.thread.position = .swapped)
    (hb : s.thread.buffersToWrite.length ≤ 25) :
    ∃ s', s.check now = some s' ∧ s'.Inv lines := by
  have ht := h.holds.taken (.inl hp)
  unfold AsyncLogging.check
  rw [if_neg (by simpa using ht.nonempty), if_neg (by omega)]
  refine ⟨_, rfl, h.goto ⟨⟨ht.newBuffer1, ht.nonempty, ht.newBuffer2⟩, Nat.zero_le _⟩ ?_⟩
  simp [LogThread.unwritten, AsyncLogging.goto, hp]

/-- A buffer handed to `LogFile::append` no longer waits. -/
theorem Inv.write {next : Nat} {b : LogBuffer} (h : s.Inv lines)
    (hp : s.thread.position = .writing next) (hb : s.thread.buffersToWrite[next]? = some b) :
    ({ s.goto (.writing (next + 1)) with output := s.output ++ [b.data] } : AsyncLogging).Inv
      lines := by
  have ht := h.holds.taken (.inr ⟨next, hp⟩)
  obtain ⟨hlt, hget⟩ := List.getElem?_eq_some_iff.mp hb
  refine ⟨⟨⟨ht.newBuffer1, ht.nonempty, ht.newBuffer2⟩, hlt⟩, h.nextBuffer, ?_⟩
  have hc := h.chunked
  simp only [chunks, LogThread.unwritten, hp, List.drop_eq_getElem_cons hlt, hget] at hc
  simpa [chunks, LogThread.unwritten, AsyncLogging.goto] using hc

private theorem refill_none {buffersToWrite : List LogBuffer} (h : buffersToWrite ≠ []) :
    refill none buffersToWrite = some (.new, buffersToWrite.dropLast) := by
  rw [refill, if_neg (by simpa using h)]

/-- There are as many buffers to take back as were given away. -/
theorem recycle_eq (ht : s.thread.Taken) :
    s.recycle = some { s with thread := ⟨.test, some .new, some .new, []⟩ } := by
  have hne : s.thread.buffersToWrite.take 2 ≠ [] := by simpa using ht.nonempty
  unfold recycle
  rw [ht.newBuffer1, refill_none hne]
  rcases ht.newBuffer2 with h2 | ⟨h2, hlen⟩
  · rw [h2]
    rfl
  · have hrest : (s.thread.buffersToWrite.take 2).dropLast ≠ [] := by
      intro hnil
      have := congrArg List.length hnil
      simp only [List.length_dropLast, List.length_take, List.length_nil] at this
      omega
    simp only [h2, Option.bind_eq_bind, Option.bind_some, refill_none hrest]

private theorem Inv.recycle (h : s.Inv lines)
    (hp : s.thread.position = .writing s.thread.buffersToWrite.length) :
    ∃ s', s.recycle = some s' ∧ s'.Inv lines := by
  have ht := h.holds.taken (.inr ⟨_, hp⟩)
  refine ⟨_, recycle_eq ht, ⟨rfl, rfl, rfl⟩, h.nextBuffer, ?_⟩
  have hc := h.chunked
  simp only [chunks, LogThread.unwritten, hp, List.drop_length] at hc
  exact hc

private theorem Inv.step {e : LogEvent} (h : s.Inv lines) (hpre : s.Admits e) :
    ∃ s', s.step e = some s' ∧ s'.Inv (lines ++ e.lines) := by
  unfold AsyncLogging.step
  split
  · next line => exact ⟨_, rfl, h.append (hpre.1 line List.mem_cons_self)⟩
  all_goals simp only [LogEvent.lines, List.append_nil]
  · next hp => exact h.test hp
  · next hp =>
    split
    · have hr := h.holds.ready (.inr (.inl hp))
      exact ⟨_, rfl, h.goto ⟨hr.newBuffer1, hr.newBuffer2, hr.empty⟩
        (by simp [LogThread.unwritten, AsyncLogging.goto, hp])⟩
    · exact h.swap (.inl hp)
  · next hp => exact h.swap (.inr hp)
  · next now hp => exact h.check hp (Nat.le_of_not_lt fun hlt => hpre.2 ⟨hp, hlt⟩)
  · next next hp =>
    split
    · next b hb => exact ⟨_, rfl, h.write hp hb⟩
    · exact ⟨s, rfl, h⟩
  · next next hp =>
    split
    · next heq => exact h.recycle (heq ▸ hp)
    · exact ⟨s, rfl, h⟩
  · exact ⟨_, rfl, h.holds, h.nextBuffer, h.chunked⟩
  · exact ⟨s, rfl, h⟩

private theorem inv_of_run {events : List LogEvent} (hs : s.Inv lines)
    (hlegal : Legal step Admits s events) :
    ∃ s', run step s events = some s' ∧ s'.Inv (lines ++ events.flatMap LogEvent.lines) := by
  rw [List.flatMap_def, ← List.foldl_append_eq_append]
  exact run_simulation Inv (fun _ _ e => Inv.step (e := e)) events hs hlegal

/-- Whatever the threads do, as long as no more than 25 buffers wait: no assertion fails, the
output and the waiting buffers hold the appended lines in their order, and no line is split. -/
theorem log_keeps_lines (events : List LogEvent) (hlegal : Legal step Admits start events) :
    ∃ s, run step start events = some s ∧
      s.chunks.flatten = (events.flatMap LogEvent.lines).flatten ∧
      Chunked s.chunks (events.flatMap LogEvent.lines) := by
  obtain ⟨s, hs, hinv⟩ := inv_of_run inv_start hlegal
  rw [List.nil_append] at hinv
  exact ⟨s, hs, hinv.chunked.flatten_eq, hinv.chunked⟩

/-- Two threads append, one of them while the other's line is being written. -/
def twoLines : List LogEvent :=
  [.append [97], .test, .lock, .wake, .append [98], .check [], .write, .recycle]

/-- Two lines. -/
theorem log_keeps_two_lines : ∃ s, run step start twoLines = some s ∧
    s.chunks.flatten = [97, 98] ∧ Chunked s.chunks [[97], [98]] :=
  log_keeps_lines twoLines (by decide)

/-! ### Stopping -/

/-- What the producers have appended since the last swap. -/
def pending (s : AsyncLogging) : List UInt8 :=
  (s.buffers ++ [s.currentBuffer]).flatMap (·.data)

/-- What is never written when the log is stopped: a thread that has tested `running_` takes
everything once more, any other thread nothing. -/
def leftover (s : AsyncLogging) : List UInt8 :=
  match s.thread.position with
  | .enter | .waiting => []
  | _ => s.pending

private theorem leftover_goto
    {position : Position} (hp : ¬ (position = .enter ∨ position = .waiting)) :
    (s.goto position).leftover = s.pending := by
  cases position <;> first | rfl | simp at hp

private theorem swap_leftover (hr : s.thread.Ready) (h : s.swap = some s') :
    s'.running = s.running ∧ s'.leftover = [] := by
  rw [swap, hr.newBuffer1, hr.empty] at h
  cases h
  exact ⟨rfl, rfl⟩

/-- After `stop`, and without further appends, what will not be written stays the same. -/
theorem Inv.leftover_step {e : LogEvent} (h : s.Inv lines) (hrun : s.running = false)
    (hpre : s.Admits e) (he : e.lines = []) (hs : s.step e = some s') :
    s'.running = false ∧ s'.leftover = s.leftover := by
  unfold AsyncLogging.step at hs
  split at hs
  · cases he
  · next hp =>
    rw [AsyncLogging.test, hrun] at hs
    cases hs
    exact ⟨hrun, by rw [leftover_goto (by simp), leftover, hp]⟩
  · next hp =>
    have hl : s.leftover = [] := by rw [leftover, hp]
    split at hs
    · cases hs
      exact ⟨hrun, hl.symm⟩
    · rw [hl, ← hrun]
      exact swap_leftover (h.holds.ready (.inr (.inl hp))) hs
  · next hp =>
    have hl : s.leftover = [] := by rw [leftover, hp]
    rw [hl, ← hrun]
    exact swap_leftover (h.holds.ready (.inr (.inr hp))) hs
  · next now hp =>
    have hb : ¬ 25 < s.thread.buffersToWrite.length := fun hlt => hpre.2 ⟨hp, hlt⟩
    rw [AsyncLogging.check, if_neg hb] at hs
    split at hs
    · cases hs
    · cases hs
      exact ⟨hrun, by rw [leftover_goto (by simp), leftover, hp]⟩
  · next next hp =>
    split at hs
    · cases hs
      exact ⟨hrun, by rw [leftover, leftover, hp]; rfl⟩
    · cases hs
      exact ⟨hrun, rfl⟩
  · next next hp =>
    rw [recycle_eq (h.holds.taken (.inr ⟨next, hp⟩))] at hs
    split at hs
    · cases hs
      exact ⟨hrun, by rw [leftover, leftover, hp]; rfl⟩
    · cases hs
      exact ⟨hrun, rfl⟩
  · cases hs
    exact ⟨rfl, rfl⟩
  · cases hs
    exact ⟨hrun, rfl⟩

/-- When the thread has ended, the output lacks exactly what the producers had appended since
its last swap. -/
theorem Inv.output_of_done (h : s.Inv lines) (hdone : s.thread.position = .done) :
    s.output.flatten ++ s.leftover = lines.flatten := by
  have hempty : s.thread.buffersToWrite = [] := by simpa [LogThread.Holds, hdone] using h.holds
  have hc := h.chunked.flatten_eq
  rw [chunks, LogThread.unwritten, hdone] at hc
  simpa [leftover, hdone, hempty, pending, List.flatMap_def] using hc

/-- What will not be written when the thread of a stopped log has ended is known at `stop`. -/
theorem leftover_of_run {events : List LogEvent} (h : s.Inv lines) (hrun : s.running = false)
    (hlegal : Legal step Admits s events) (hlines : ∀ e ∈ events, e.lines = [])
    (hs : run step s events = some s') : s'.Inv lines ∧ s'.leftover = s.leftover := by
  induction events generalizing s with
  | nil => exact Option.some.inj hs ▸ ⟨h, rfl⟩
  | cons e es ih =>
    obtain ⟨s₁, h₁, h₂⟩ := Option.bind_eq_some_iff.mp hs
    have he := hlines e List.mem_cons_self
    obtain ⟨s₂, hs₂, hinv⟩ := h.step hlegal.1
    obtain rfl := Option.some.inj (h₁.symm.trans hs₂)
    rw [he, List.append_nil] at hinv
    obtain ⟨hrun₁, hleft⟩ := h.leftover_step hrun hlegal.1 he h₁
    rw [← hleft]
    exact ih hinv hrun₁ (hlegal.tail h₁) (fun e' he' => hlines e' (List.mem_cons_of_mem e he')) h₂

/-- When `stop` returns, every line appended before it has been handed to `LogFile::append` if
and only if `stop` came between the test of `running_` and the swap, or nothing was appended
since the last swap. -/
theorem stop_loses_nothing_iff (before after : List LogEvent)
    (hlegal : Legal step Admits start (before ++ .stop :: after))
    (hafter : ∀ e ∈ after, e.lines = []) (hs : run step start before = some s)
    (hs' : run step s (.stop :: after) = some s') (hdone : s'.thread.position = .done) :
    s'.output.flatten = (before.flatMap LogEvent.lines).flatten ↔
      s.thread.position = .enter ∨ s.thread.position = .waiting ∨ s.pending = [] := by
  obtain ⟨s₁, hs₁, hinv⟩ := inv_of_run inv_start hlegal.of_append
  obtain rfl := Option.some.inj (hs.symm.trans hs₁)
  have hstop : ({ s with running := false } : AsyncLogging).Inv
      ([] ++ before.flatMap LogEvent.lines) := ⟨hinv.holds, hinv.nextBuffer, hinv.chunked⟩
  have hrest := (hlegal.of_append_right hs).tail rfl
  obtain ⟨hinv', hleft⟩ := leftover_of_run hstop rfl hrest hafter hs'
  have hout := hinv'.output_of_done hdone
  rw [List.nil_append, hleft] at hout
  rw [← hout, List.self_eq_append_right]
  change s.leftover = [] ↔ _
  rw [leftover]
  cases s.thread.position <;> simp

/-- A line is appended while the thread writes an empty buffer. -/
def appendWhileWriting : List LogEvent := [.test, .lock, .wake, .append [97]]

/-- The thread finishes its iteration and finds `running_` false. -/
def finish : List LogEvent := [.check [], .write, .recycle, .test]

/-- The thread is stopped while it writes: the line is lost. -/
theorem stop_loses_line : ∃ s, Legal step Admits start (appendWhileWriting ++ .stop :: finish) ∧
    run step start (appendWhileWriting ++ .stop :: finish) = some s ∧
    s.thread.position = .done ∧ s.output.flatten = [] ∧
    (appendWhileWriting.flatMap LogEvent.lines).flatten = [97] :=
  ⟨_, by decide, rfl, rfl, rfl, rfl⟩

/-- The line is appended while the thread waits: everything is written. -/
theorem stop_while_waiting : ∃ s, run step start ([.test, .lock, .append [97]] ++
    .stop :: .wake :: finish) = some s ∧ s.output.flatten = [97] :=
  ⟨_, rfl, (stop_loses_nothing_iff [.test, .lock, .append [97]] (.wake :: finish) (by decide)
    (by decide) rfl rfl rfl).mpr (.inr (.inl rfl))⟩

end AsyncLogging

end IMServer.Logging

import IMServer.Base.CheckedInt
import IMServer.Base.Chunks
import IMServer.Base.Run

/-!
# Log files

`server/src/LogFile.cc` and `FileUtil::AppendFile` of `FileUtil.cc`. Lines are appended to the
current file; a new one is opened when it has grown above `rollSize_`, or when a day has passed,
which is looked at every `checkEveryN_` appends, but never twice in one second.

Over every run the files hold the lines one after the other, each line in one file, and they are
opened at increasing seconds. A file that stays above `rollSize_` after an append was opened in the
second that the clock still shows.
-/

namespace IMServer.Logging

open IMServer.Base

/-! ### Files -/

/-- `AppendFile`, `FileUtil.h:54–75`: what has been written and the count of it. The count is an
`off_t`, which no file outgrows. -/
structure AppendFile where
  contents : List UInt8
  writtenBytes : Nat

namespace AppendFile

def new : AppendFile := ⟨[], 0⟩

/-- The loop of `AppendFile::append`, `FileUtil.cc:30–44`, from call `k` of `write` on, which takes
as much of the rest as `accepts k` allows. -/
def appendLoop (accepts : Nat → Nat) : Nat → Nat → List UInt8 → List UInt8 → List UInt8
  | 0, _, contents, _ => contents
  | fuel + 1, k, contents, rest =>
    if rest = [] then contents
    else if rest.take (accepts k) = [] then contents
    else appendLoop accepts fuel (k + 1) (contents ++ rest.take (accepts k)) (rest.drop (accepts k))

/-- `AppendFile::append`, `FileUtil.cc:26–47`. Every turn of the loop but the last takes a byte, so
the length of the line is fuel enough. -/
def append (f : AppendFile) (accepts : Nat → Nat) (logline : List UInt8) : AppendFile :=
  ⟨appendLoop accepts logline.length 1 (f.contents ++ logline.take (accepts 0))
    (logline.drop (accepts 0)), f.writtenBytes + logline.length⟩

private theorem appendLoop_eq {accepts : Nat → Nat} (h : ∀ k, 0 < accepts k) {fuel k : Nat}
    {contents rest : List UInt8} (hfuel : rest.length ≤ fuel) :
    appendLoop accepts fuel k contents rest = contents ++ rest := by
  induction fuel generalizing k contents rest with
  | zero =>
    rw [List.eq_nil_of_length_eq_zero (Nat.le_zero.mp hfuel), List.append_nil]
    rfl
  | succ fuel ih =>
    unfold appendLoop
    split
    · next hrest => rw [hrest, List.append_nil]
    · next hrest =>
      have hpos := List.length_pos_of_ne_nil hrest
      have hk := h k
      have htake : rest.take (accepts k) ≠ [] := by
        apply List.ne_nil_of_length_pos
        rw [List.length_take]
        omega
      rw [if_neg htake, ih, List.append_assoc, List.take_append_drop]
      rw [List.length_drop]
      omega

/-- When every `write` takes something, the whole line is written. -/
theorem append_eq (f : AppendFile) {accepts : Nat → Nat} (h : ∀ k, 0 < accepts k)
    (logline : List UInt8) :
    f.append accepts logline = ⟨f.contents ++ logline, f.writtenBytes + logline.length⟩ := by
  rw [append, appendLoop_eq h, List.append_assoc, List.take_append_drop]
  rw [List.length_drop]
  omega

end AppendFile

/-! ### The log -/

/-- `kRollPerSeconds_`, `LogFile.h:72`. -/
def kRollPerSeconds : Int := 60 * 60 * 24

/-- The constants of a `LogFile`; `checkEveryN_` is an `int`. -/
structure Rolling where
  rollSize : Int
  flushInterval : Int
  checkEveryN : Int
  inRange : checkEveryN < 2 ^ 31

/-- `LogFile.h:52–69`, with the files that have been closed, oldest first, the second in which each
file was opened, and the number of calls of `time` so far. -/
structure LogFile where
  count : Int
  startOfPeriod : Int
  lastRoll : Int
  lastFlush : Int
  closed : List (Int × AppendFile)
  file : Option (Int × AppendFile)
  calls : Nat

namespace LogFile

/-- All files in the order in which they were opened. -/
def files (s : LogFile) : List (Int × AppendFile) := s.closed ++ s.file.toList

/-- `rollFile`, `LogFile.cc:103–122`, where `clock n` is what call `n` of `time` returns. -/
def rollFile (clock : Nat → Int) (s : LogFile) : LogFile :=
  let now := clock s.calls
  let start := now.tdiv kRollPerSeconds * kRollPerSeconds
  if s.lastRoll < now then
    { s with
      lastRoll := now, lastFlush := now, startOfPeriod := start, closed := s.files,
      file := some (now, .new), calls := s.calls + 1 }
  else { s with calls := s.calls + 1 }

/-- The constructor, `LogFile.cc:10–28`. -/
def new (clock : Nat → Int) : LogFile := rollFile clock ⟨0, 0, 0, 0, [], none, 0⟩

/-- The part of `append_unlocked` after the size has been found small, `LogFile.cc:80–97`. -/
def checkPeriod (cfg : Rolling) (clock : Nat → Int) (s : LogFile) : Option LogFile :=
  (add32 s.count 1).map fun count =>
    if count ≥ cfg.checkEveryN then
      let now := clock s.calls
      let thisPeriod := now.tdiv kRollPerSeconds * kRollPerSeconds
      let s := { s with count := 0, calls := s.calls + 1 }
      if thisPeriod ≠ s.startOfPeriod then s.rollFile clock
      else if now - s.lastFlush > cfg.flushInterval then { s with lastFlush := now }
      else s
    else { s with count := count }

/-- A call of `append`: the line and what the calls of `write` accept. -/
structure Append where
  logline : List UInt8
  accepts : Nat → Nat

/-- `append_unlocked`, `LogFile.cc:67–99`; it fails when there is no file or the count overflows. -/
def appendUnlocked (cfg : Rolling) (clock : Nat → Int) (s : LogFile) (call : Append) :
    Option LogFile :=
  match s.file with
  | none => none
  | some (opened, file) =>
    let file := file.append call.accepts call.logline
    let s := { s with file := some (opened, file) }
    if file.writtenBytes > cfg.rollSize then some (s.rollFile clock) else s.checkPeriod cfg clock

/-! ### What holds at all times -/

/-- The beginning of a day in UTC, in seconds since 1970. -/
def midnight (t : Int) : Int := t - t % kRollPerSeconds

private theorem startOfDay_eq {t : Int} (h : 0 < t) :
    t.tdiv kRollPerSeconds * kRollPerSeconds = midnight t := by
  rw [Int.tdiv_eq_ediv_of_nonneg h.le, midnight, kRollPerSeconds]
  omega

/-- A clock that is never set back, by the number of the call of `time`. -/
def NonDecreasing (clock : Nat → Int) : Prop := ∀ ⦃m n⦄, m ≤ n → clock m ≤ clock n

/-- The log when the lines have been appended and `file` is current. -/
structure Inv (cfg : Rolling) (clock : Nat → Int) (s : LogFile) (file : AppendFile)
    (lines : List (List UInt8)) : Prop where
  current : s.file = some (s.lastRoll, file)
  written : file.writtenBytes = file.contents.length
  chunked : Chunked (s.closed.map (·.2.contents) ++ [file.contents]) lines
  seconds : (s.closed.map Prod.fst ++ [s.lastRoll]).Pairwise (· < ·)
  period : s.startOfPeriod = midnight s.lastRoll
  counted : 0 ≤ s.count ∧ s.count < cfg.checkEveryN
  past : ∀ n, s.calls ≤ n → s.lastRoll ≤ clock n

/-- The file is above `rollSize_` only if the last call of `time` returned the second in which it
was opened. -/
def Shows (cfg : Rolling) (clock : Nat → Int) (s : LogFile) (file : AppendFile) : Prop :=
  cfg.rollSize < file.writtenBytes → clock (s.calls - 1) = s.lastRoll

section Invariant

variable {cfg : Rolling} {clock : Nat → Int} {s : LogFile} {file : AppendFile}
  {lines : List (List UInt8)}

/-- Rolling opens an empty file, or leaves a file that was opened in the second of the call. -/
theorem Inv.rollFile (hroll : 0 ≤ cfg.rollSize) (hmono : NonDecreasing clock)
    (hpos : ∀ n, 0 < clock n) (h : Inv cfg clock s file lines) :
    ∃ file', Inv cfg clock (s.rollFile clock) file' lines ∧
      Shows cfg clock (s.rollFile clock) file' ∧ (s.rollFile clock).calls = s.calls + 1 := by
  unfold LogFile.rollFile
  have hfiles : s.files = s.closed ++ [(s.lastRoll, file)] := by
    rw [files, h.current]
    rfl
  by_cases hlt : s.lastRoll < clock s.calls
  · rw [if_pos hlt]
    refine ⟨.new, ⟨rfl, rfl, ?_, ?_, startOfDay_eq (hpos s.calls), h.counted, ?_⟩, ?_, rfl⟩
    · dsimp only
      rw [hfiles, List.map_append]
      exact h.chunked.push_nil
    · dsimp only
      rw [hfiles, List.map_append]
      refine List.pairwise_append.mpr ⟨h.seconds, List.pairwise_singleton _ _, ?_⟩
      intro t ht t' ht'
      rw [List.mem_singleton.mp ht']
      rcases List.mem_append.mp ht with ht | ht
      · exact ((List.pairwise_append.mp h.seconds).2.2 t ht _ List.mem_cons_self).trans hlt
      · rwa [List.mem_singleton.mp ht]
    · intro n hn
      exact hmono (Nat.le_of_succ_le hn)
    · intro hlarge
      exact absurd hlarge (not_lt.mpr hroll)
  · rw [if_neg hlt]
    refine ⟨file, ⟨h.current, h.written, h.chunked, h.seconds, h.period, h.counted, ?_⟩, ?_, rfl⟩
    · intro n hn
      exact h.past n (Nat.le_of_succ_le hn)
    · intro hlarge
      exact le_antisymm (not_lt.mp hlt) (h.past s.calls (Nat.le_refl _))

/-- The check of the day; the file is not above `rollSize_`. -/
theorem Inv.checkPeriod (hroll : 0 ≤ cfg.rollSize) (hcheck : 1 ≤ cfg.checkEveryN)
    (hmono : NonDecreasing clock) (hpos : ∀ n, 0 < clock n) (h : Inv cfg clock s file lines)
    (hsmall : ¬ cfg.rollSize < file.writtenBytes) :
    ∃ s' file', s.checkPeriod cfg clock = some s' ∧ Inv cfg clock s' file' lines ∧
      (cfg.rollSize < file'.writtenBytes → s.calls < s'.calls) ∧ Shows cfg clock s' file' := by
  obtain ⟨hcount, hlt⟩ := h.counted
  have hrange := cfg.inRange
  rw [LogFile.checkPeriod, add32_eq (by omega) (by omega), Option.map_some]
  by_cases hfull : s.count + 1 ≥ cfg.checkEveryN
  · rw [if_pos hfull]
    extract_lets now thisPeriod s₁
    have h₁ : Inv cfg clock s₁ file lines :=
      ⟨h.current, h.written, h.chunked, h.seconds, h.period, ⟨Int.le_refl 0, hcheck⟩,
        fun n hn => h.past n (Nat.le_of_succ_le hn)⟩
    by_cases hday : thisPeriod ≠ s₁.startOfPeriod
    · obtain ⟨file', hinv, hshows, hcalls⟩ := h₁.rollFile hroll hmono hpos
      rw [if_pos hday]
      refine ⟨_, file', rfl, hinv, fun _ => ?_, hshows⟩
      rw [hcalls]
      exact Nat.lt_succ_of_lt (Nat.lt_succ_self _)
    · rw [if_neg hday]
      by_cases hflush : now - s₁.lastFlush > cfg.flushInterval
      · rw [if_pos hflush]
        exact ⟨_, file, rfl, ⟨h₁.current, h₁.written, h₁.chunked, h₁.seconds, h₁.period, h₁.counted,
          h₁.past⟩, fun hlarge => absurd hlarge hsmall, fun hlarge => absurd hlarge hsmall⟩
      · rw [if_neg hflush]
        exact ⟨_, file, rfl, h₁, fun hlarge => absurd hlarge hsmall,
          fun hlarge => absurd hlarge hsmall⟩
  · rw [if_neg hfull]
    refine ⟨_, file, rfl, ⟨h.current, h.written, h.chunked, h.seconds, h.period, ?_, h.past⟩,
      fun hlarge => absurd hlarge hsmall, fun hlarge => absurd hlarge hsmall⟩
    exact ⟨by dsimp only; omega, by dsimp only; omega⟩

/-- An append adds its line, and its last call of `time` shows the second of a file that stays above
`rollSize_`. -/
theorem Inv.append (hroll : 0 ≤ cfg.rollSize) (hcheck : 1 ≤ cfg.checkEveryN)
    (hmono : NonDecreasing clock) (hpos : ∀ n, 0 < clock n) (h : Inv cfg clock s file lines)
    (call : Append) (hcall : ∀ k, 0 < call.accepts k) :
    ∃ s' file', s.appendUnlocked cfg clock call = some s' ∧
      Inv cfg clock s' file' (lines ++ [call.logline]) ∧
      (cfg.rollSize < file'.writtenBytes → s.calls < s'.calls) ∧ Shows cfg clock s' file' := by
  unfold appendUnlocked
  rw [h.current]
  dsimp only
  rw [file.append_eq hcall]
  have h₁ : Inv cfg clock
      { s with file := some (s.lastRoll,
        ⟨file.contents ++ call.logline, file.writtenBytes + call.logline.length⟩) }
      ⟨file.contents ++ call.logline, file.writtenBytes + call.logline.length⟩
      (lines ++ [call.logline]) :=
    ⟨rfl, by rw [h.written, List.length_append], h.chunked.extend call.logline, h.seconds, h.period,
      h.counted, h.past⟩
  by_cases hlarge : ((file.writtenBytes + call.logline.length : Nat) : Int) > cfg.rollSize
  · obtain ⟨file', hinv, hshows, hcalls⟩ := h₁.rollFile hroll hmono hpos
    rw [if_pos hlarge]
    refine ⟨_, file', rfl, hinv, fun _ => ?_, hshows⟩
    rw [hcalls]
    exact Nat.lt_succ_self _
  · rw [if_neg hlarge]
    exact h₁.checkPeriod hroll hcheck hmono hpos hlarge

/-- The constructor opens the first file. -/
theorem inv_new (hcheck : 1 ≤ cfg.checkEveryN) (hmono : NonDecreasing clock)
    (hpos : ∀ n, 0 < clock n) :
    Inv cfg clock (new clock) .new [] := by
  unfold new LogFile.rollFile
  rw [if_pos (hpos 0)]
  exact ⟨rfl, rfl, ⟨[[]], rfl, rfl⟩, List.pairwise_singleton _ _, startOfDay_eq (hpos 0),
    ⟨Int.le_refl 0, hcheck⟩, fun n _ => hmono (Nat.zero_le n)⟩

end Invariant

/-- Every run of appends whose writes succeed ends with the lines whole and in order in the files,
which were opened at increasing seconds; and the next append leaves a file above `rollSize_` only in
the second in which it was opened. -/
theorem files_hold_lines {cfg : Rolling} (hroll : 0 ≤ cfg.rollSize) (hcheck : 1 ≤ cfg.checkEveryN)
    {clock : Nat → Int} (hmono : NonDecreasing clock) (hpos : ∀ n, 0 < clock n)
    (calls : List Append) (hcalls : ∀ call ∈ calls, ∀ k, 0 < call.accepts k) :
    ∃ s, run (appendUnlocked cfg clock) (new clock) calls = some s ∧
      (s.files.map (·.2.contents)).flatten = (calls.map Append.logline).flatten ∧
      Chunked (s.files.map (·.2.contents)) (calls.map Append.logline) ∧
      (s.files.map Prod.fst).Pairwise (· < ·) ∧
      s.file.map Prod.fst = some s.lastRoll ∧ s.startOfPeriod = midnight s.lastRoll ∧
      ∀ call : Append, (∀ k, 0 < call.accepts k) →
        ∃ s' opened file, s.appendUnlocked cfg clock call = some s' ∧
          s'.file = some (opened, file) ∧ s'.startOfPeriod = midnight s'.lastRoll ∧
          (cfg.rollSize < file.contents.length →
            s.calls < s'.calls ∧ clock (s'.calls - 1) = opened) := by
  have hstep : ∀ (s : LogFile) lines (call : Append), (∃ file, Inv cfg clock s file lines) →
      (∀ k, 0 < call.accepts k) → ∃ s', s.appendUnlocked cfg clock call = some s' ∧
        ∃ file, Inv cfg clock s' file (lines ++ [call.logline]) := by
    rintro s lines call ⟨file, hinv⟩ hcall
    obtain ⟨s', file', hstep, hinv', -⟩ := hinv.append hroll hcheck hmono hpos call hcall
    exact ⟨s', hstep, file', hinv'⟩
  obtain ⟨s, hrun, file, hinv⟩ := run_simulation (fun s lines => ∃ file, Inv cfg clock s file lines)
    hstep calls ⟨.new, inv_new hcheck hmono hpos⟩ (Legal.of_forall hcalls _)
  have hlines : calls.foldl (fun lines call => lines ++ [call.logline]) [] =
      calls.map Append.logline := by
    rw [List.foldl_append_eq_append, List.nil_append, ← List.flatMap_def, ← List.map_eq_flatMap]
  rw [hlines] at hinv
  have hfiles : s.files = s.closed ++ [(s.lastRoll, file)] := by
    rw [files, hinv.current]
    rfl
  refine ⟨s, hrun, ?_, ?_, ?_, ?_, hinv.period, fun call hcall => ?_⟩
  · rw [hfiles, List.map_append]
    exact hinv.chunked.flatten_eq
  · rw [hfiles, List.map_append]
    exact hinv.chunked
  · rw [hfiles, List.map_append]
    exact hinv.seconds
  · rw [hinv.current]
    rfl
  · obtain ⟨s', file', hstep, hinv', hcalls', hshows⟩ :=
      hinv.append hroll hcheck hmono hpos call hcall
    refine ⟨s', s'.lastRoll, file', hstep, hinv'.current, hinv'.period, fun hlarge => ?_⟩
    rw [← hinv'.written] at hlarge
    exact ⟨hcalls' hlarge, hshows hlarge⟩

/-- Two lines, the first one written in two calls and longer than `rollSize_`. -/
theorem files_hold_lines_two :
    ∃ s, run (appendUnlocked ⟨2, 3, 1, by decide⟩ fun n => (n : Int) + 1)
        (new fun n => (n : Int) + 1) [⟨[97, 98, 10], fun _ => 2⟩, ⟨[99, 10], fun _ => 2⟩] = some s ∧
      (s.files.map (·.2.contents)).flatten = [97, 98, 10, 99, 10] := by
  obtain ⟨s, hrun, hflat, -⟩ := @files_hold_lines ⟨2, 3, 1, by decide⟩ (by decide) (by decide)
    (fun n => (n : Int) + 1) (fun a b h => by dsimp only; omega) (fun n => by omega)
    [⟨[97, 98, 10], fun _ => 2⟩, ⟨[99, 10], fun _ => 2⟩]
    (by
      intro call hcall k
      rcases List.mem_cons.mp hcall with rfl | hcall
      · exact Nat.two_pos
      · rw [List.mem_singleton.mp hcall]
        exact Nat.two_pos)
  exact ⟨s, hrun, hflat⟩

end LogFile

end IMServer.Logging

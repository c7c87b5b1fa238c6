import IMServer.Base.Lines
import IMServer.Base.OrderedMap
import IMServer.Cache.Encoding

/-!
# The configuration of the cache

`server/src/ConfigFileReader.cc`. The file is read with `fgets` in pieces of at most 255 bytes, each
holding one entry `name=value`, and is written back entry by entry through a buffer that takes 127
bytes of a line and its newline.

A reader that is made after a successful `SetConfigValue` has the map of the one that wrote exactly
when every entry but the last fits the buffer with its newline and the last one without it.
-/

namespace IMServer.Config

open IMServer.Base
open IMServer.Cache (cString cString_of_notMem)

/-- `m_config_map`. -/
abbrev Map := OrderedMap ByteString Text

def numberSign : UInt8 := 35
def equalsSign : UInt8 := 61

/-! ### Reading -/

/-- `_TrimSpace`, :133–158. -/
def trimSpace (name : Text) : Option Text :=
  if name.dropWhile isBlank = [] then none else some (trim name)

/-- `_ParseLine`, :118–131; an entry whose name is in the map is left out. -/
def parseLine (m : Map) (line : Text) : Map :=
  if equalsSign ∈ line then
    match trimSpace (line.takeWhile (· ≠ equalsSign)),
      trimSpace (line.dropWhile (· ≠ equalsSign)).tail with
    | some key, some value => m.insert ⟨key⟩ value
    | _, _ => m
  else m

/-- A newline at the end is taken off, :67–68. -/
def chomp (buf : Text) : Text := if buf.getLast? = some newline then buf.dropLast else buf

/-- One piece, :66–77. Nothing is returned for a piece that starts with a zero byte, since
`buf[len - 1]` is then outside the buffer. -/
def loadLine (m : Map) (piece : Text) : Option Map :=
  let buf := cString piece
  if buf = [] then none
  else
    let line := (chomp buf).takeWhile (· ≠ numberSign)
    if line = [] then some m else some (parseLine m line)

/-- The loop of `_LoadFile`, :59–78. -/
def loadText (text : Text) : Option Map :=
  (pieces 255 [] text).foldlM loadLine OrderedMap.empty

/-- A `ConfigFileReader`; its file is kept apart. -/
structure ConfigFileReader where
  loadOk : Bool
  configMap : Map

/-- The constructor, :7–10 and :48–83, given what the file holds if it can be opened, and what is in
the place of `m_load_ok`, which is not initialised. -/
def loadFile (stale : Bool) : Option Text → Option ConfigFileReader
  | none => some ⟨stale, OrderedMap.empty⟩
  | some text => (loadText text).map (⟨true, ·⟩)

/-! ### Writing -/

/-- What the C library answers while the file is written: whether it can be opened, and for each
`fwrite` that fails how many bytes are written nevertheless. -/
structure Disk where
  opens : Bool
  fails : Nat → Option Nat

/-- What `snprintf` leaves of an entry in a buffer of 128 bytes, :105–106. -/
def entryLine (e : ByteString × Text) : Text :=
  (cString e.1.bytes ++ equalsSign :: cString e.2 ++ [newline]).take 127

/-- The loop of `_WriteFIle` with the result of the function, :102–115. -/
def writeEntries (fails : Nat → Option Nat) :
    Nat → List (ByteString × Text) → Text → Int × Text
  | _, [], file => (0, file)
  | n, e :: es, file =>
    match fails n with
    | none => writeEntries fails (n + 1) es (file ++ entryLine e)
    | some written => (-1, file ++ (entryLine e).take written)

/-- `_WriteFIle`, :85–116: the result and what the file holds then. -/
def writeFile (m : Map) (disk : Disk) (file : Text) : Int × Text :=
  if disk.opens then writeEntries disk.fails 0 m.toList [] else (-1, file)

namespace ConfigFileReader

/-- `GetConfigName`, :16–29. -/
def getConfigName (r : ConfigFileReader) (name : Text) : Option Text :=
  if r.loadOk then (r.configMap.find ⟨name⟩).map cString else none

/-- `SetConfigValue`, :31–46: the result, the reader and what the file holds then. -/
def setConfigValue (r : ConfigFileReader) (name value : Text) (disk : Disk) (file : Text) :
    Int × ConfigFileReader × Text :=
  if r.loadOk then
    let m := r.configMap.set ⟨name⟩ value
    ((writeFile m disk file).1, ⟨r.loadOk, m⟩, (writeFile m disk file).2)
  else (-1, r, file)

end ConfigFileReader

/-! ### Entries -/

/-- A name or value that one line can carry. -/
def Plain (s : Text) : Prop :=
  s ≠ [] ∧ Trimmed s ∧ 0 ∉ s ∧ newline ∉ s ∧ numberSign ∉ s

instance (s : Text) : Decidable (Plain s) := inferInstanceAs (Decidable (_ ∧ _))

/-- An entry that one line can carry. -/
def Clean (name value : Text) : Prop := Plain name ∧ Plain value ∧ equalsSign ∉ name

instance (name value : Text) : Decidable (Clean name value) :=
  inferInstanceAs (Decidable (_ ∧ _))

/-- The entry without its newline. -/
def body (e : ByteString × Text) : Text := e.1.bytes ++ equalsSign :: e.2

/-- Every entry fits the writer's buffer, all but the last one with their newline. -/
def Fits (es : List (ByteString × Text)) : Prop :=
  (∀ e ∈ es.dropLast, (body e).length < 127) ∧ ∀ e ∈ es.getLast?, (body e).length ≤ 127

instance (es : List (ByteString × Text)) : Decidable (Fits es) :=
  inferInstanceAs (Decidable (_ ∧ _))

section Entries

variable {e : ByteString × Text} {m m' : Map} {piece : Text}

private theorem not_mem_body {b : UInt8} (hb : b ≠ equalsSign) (hname : b ∉ e.1.bytes)
    (hvalue : b ∉ e.2) : b ∉ body e := by
  intro h
  rcases List.mem_append.mp h with h | h
  · exact hname h
  · rcases List.mem_cons.mp h with h | h
    · exact hb h
    · exact hvalue h

private theorem trimSpace_of_plain {s : Text} (h : Plain s) : trimSpace s = some s := by
  rw [trimSpace, dropWhile_of_trimmed h.2.1, if_neg h.1, trim_of_trimmed h.2.1]

/-- The part of an entry before its first `=` is the name, the rest is the value. -/
theorem parseLine_body (h : Clean e.1.bytes e.2) : parseLine m (body e) = m.insert e.1 e.2 := by
  obtain ⟨hname, hvalue, heq⟩ := h
  have hall : ∀ b ∈ e.1.bytes, decide (b ≠ equalsSign) = true :=
    fun b hb => decide_eq_true fun h => heq (h ▸ hb)
  have htake : (body e).takeWhile (· ≠ equalsSign) = e.1.bytes := by
    rw [body, List.takeWhile_append_of_pos hall, List.takeWhile_cons_of_neg (by decide),
      List.append_nil]
  have hdrop : (body e).dropWhile (· ≠ equalsSign) = equalsSign :: e.2 := by
    rw [body, List.dropWhile_append_of_pos hall, List.dropWhile_cons_of_neg (by decide)]
  have hmem : equalsSign ∈ body e := List.mem_append_right _ List.mem_cons_self
  rw [parseLine, if_pos hmem, htake, hdrop, List.tail_cons, trimSpace_of_plain hname,
    trimSpace_of_plain hvalue]

/-- The line of an entry is read as the entry, with its newline or without. -/
theorem loadLine_body (h : Clean e.1.bytes e.2) {ending : Text}
    (hending : ending = [] ∨ ending = [newline]) :
    loadLine m (body e ++ ending) = some (m.insert e.1 e.2) := by
  have hzero : 0 ∉ body e := not_mem_body (by decide) h.1.2.2.1 h.2.1.2.2.1
  have hnewline : newline ∉ body e := not_mem_body (by decide) h.1.2.2.2.1 h.2.1.2.2.2.1
  have hsign : numberSign ∉ body e := not_mem_body (by decide) h.1.2.2.2.2 h.2.1.2.2.2.2
  have hne : body e ≠ [] := List.append_ne_nil_of_right_ne_nil _ (List.cons_ne_nil _ _)
  have hwhole : cString (body e ++ ending) = body e ++ ending := by
    apply cString_of_notMem
    rcases hending with rfl | rfl
    · rwa [List.append_nil]
    · exact fun h0 => hzero ((List.mem_append.mp h0).resolve_right (by decide))
  have hline : chomp (body e ++ ending) = body e := by
    unfold chomp
    rcases hending with rfl | rfl
    · rw [List.append_nil, if_neg]
      exact fun hlast => hnewline (List.mem_of_getLast? hlast)
    · rw [List.getLast?_concat, if_pos rfl, List.dropLast_concat]
  have htake : (body e).takeWhile (· ≠ numberSign) = body e := by
    apply List.takeWhile_eq_self_iff.mpr
    intro b hb
    exact decide_eq_true fun hs => hsign (hs ▸ hb)
  unfold loadLine
  simp only [hwhole, hline, htake]
  rw [if_neg (List.append_ne_nil_of_left_ne_nil hne _), if_neg hne, parseLine_body h]

private theorem trimSpace_eq_some {s t : Text} (h : trimSpace s = some t) :
    t ≠ [] ∧ Trimmed t ∧ t.Sublist s := by
  unfold trimSpace at h
  split at h
  · cases h
  · next hne =>
    cases h
    exact ⟨trim_ne_nil hne, trimmed_trim s, trim_sublist s⟩

private theorem plain_of_trimSpace {s t : Text} (h : trimSpace s = some t) (hzero : 0 ∉ s)
    (hnewline : newline ∉ s) (hsign : numberSign ∉ s) : Plain t :=
  have ⟨hne, htrim, hsub⟩ := trimSpace_eq_some h
  ⟨hne, htrim, fun h => hzero (hsub.mem h), fun h => hnewline (hsub.mem h),
    fun h => hsign (hsub.mem h)⟩

/-- A line adds nothing, or an entry that is no longer than the line. -/
theorem parseLine_cases {line : Text} (hzero : 0 ∉ line) (hnewline : newline ∉ line)
    (hsign : numberSign ∉ line) :
    parseLine m line = m ∨ ∃ e, Clean e.1.bytes e.2 ∧ (body e).length ≤ line.length ∧
      parseLine m line = m.insert e.1 e.2 := by
  unfold parseLine
  split
  · next hmem =>
    split
    · next key value hkey hvalue =>
      have hbefore := (List.takeWhile_prefix (p := (· ≠ equalsSign)) (l := line)).sublist
      have hafter := (List.tail_sublist (line.dropWhile (· ≠ equalsSign))).trans
        (List.dropWhile_sublist _)
      have hkeyEq : equalsSign ∉ key := by
        intro h
        have hpos := List.mem_takeWhile_imp ((trimSpace_eq_some hkey).2.2.mem h)
        exact absurd hpos (by decide)
      refine .inr ⟨(⟨key⟩, value), ⟨?_, ?_, hkeyEq⟩, ?_, rfl⟩
      · exact plain_of_trimSpace hkey (fun h => hzero (hbefore.mem h))
          (fun h => hnewline (hbefore.mem h)) (fun h => hsign (hbefore.mem h))
      · exact plain_of_trimSpace hvalue (fun h => hzero (hafter.mem h))
          (fun h => hnewline (hafter.mem h)) (fun h => hsign (hafter.mem h))
      · have hne : line.dropWhile (· ≠ equalsSign) ≠ [] := by
          intro hnil
          have hall := List.dropWhile_eq_nil_iff.mp hnil equalsSign hmem
          exact absurd hall (by decide)
        have hlen := congrArg List.length (List.takeWhile_append_dropWhile
          (p := (· ≠ equalsSign)) (l := line))
        have hkeyLen := (trimSpace_eq_some hkey).2.2.length_le
        have hvalueLen := (trimSpace_eq_some hvalue).2.2.length_le
        have hpos := List.length_pos_of_ne_nil hne
        rw [List.length_append] at hlen
        rw [List.length_tail] at hvalueLen
        rw [body, List.length_append, List.length_cons]
        dsimp only
        omega
    · exact .inl rfl
  · exact .inl rfl

private theorem chomp_sublist (buf : Text) : (chomp buf).Sublist buf := by
  unfold chomp
  split
  · exact List.dropLast_sublist buf
  · exact List.Sublist.refl buf

private theorem newline_notMem_chomp {buf : Text} (h : newline ∉ buf.dropLast) :
    newline ∉ chomp buf := by
  unfold chomp
  split
  · exact h
  · next hlast =>
    rcases List.eq_nil_or_concat' buf with rfl | ⟨init, b, rfl⟩
    · exact List.not_mem_nil
    · rw [List.getLast?_concat] at hlast
      rw [List.dropLast_concat] at h
      intro hn
      rcases List.mem_append.mp hn with hn | hn
      · exact h hn
      · exact hlast (congrArg some (List.mem_singleton.mp hn).symm)

/-- What is left of a piece before its first zero byte has a newline at most at its end. -/
theorem newline_notMem_cString (h : newline ∉ piece.dropLast) :
    newline ∉ (cString piece).dropLast := by
  obtain ⟨rest, hrest⟩ : cString piece <+: piece := List.takeWhile_prefix _
  by_cases hnil : rest = []
  · rw [hnil, List.append_nil] at hrest
    rwa [hrest]
  · rw [← hrest, List.dropLast_append_of_ne_nil hnil] at h
    exact fun hn => h (List.mem_append_left _ ((List.dropLast_sublist _).mem hn))

/-- A piece adds nothing, or an entry that is no longer than the piece. -/
theorem loadLine_cases (h : loadLine m piece = some m') (hpiece : newline ∉ piece.dropLast) :
    m' = m ∨ ∃ e, Clean e.1.bytes e.2 ∧ (body e).length ≤ piece.length ∧
      m' = m.insert e.1 e.2 := by
  unfold loadLine at h
  extract_lets buf line at h
  have hbuf : buf.Sublist piece := (List.takeWhile_prefix _).sublist
  have hline : line.Sublist (chomp buf) := (List.takeWhile_prefix _).sublist
  have hzero : 0 ∉ line := by
    intro h0
    have hpos := List.mem_takeWhile_imp ((hline.trans (chomp_sublist buf)).mem h0)
    exact absurd hpos (by decide)
  have hnewline : newline ∉ line :=
    fun hn => newline_notMem_chomp (newline_notMem_cString hpiece) (hline.mem hn)
  have hsign : numberSign ∉ line := by
    intro hs
    have hpos := List.mem_takeWhile_imp hs
    exact absurd hpos (by decide)
  split at h
  · cases h
  · split at h
    · exact .inl (Option.some.inj h).symm
    · rw [← Option.some.inj h]
      rcases parseLine_cases (m := m) hzero hnewline hsign with hsame | ⟨e, hclean, hlen, hinsert⟩
      · exact .inl hsame
      · have hle := ((hline.trans (chomp_sublist buf)).trans hbuf).length_le
        exact .inr ⟨e, hclean, hlen.trans hle, hinsert⟩

/-- What `_LoadFile` makes of pieces that it can read: the entries stay fit for a line, and there
are no more of them than pieces. -/
theorem load_bounds {ps : List Text} (hps : ∀ p ∈ ps, newline ∉ p.dropLast)
    (hm : ∀ e ∈ m.toList, Clean e.1.bytes e.2) (h : ps.foldlM loadLine m = some m') :
    (∀ e ∈ m'.toList, Clean e.1.bytes e.2) ∧
      m'.toList.length ≤ m.toList.length + ps.length := by
  induction ps generalizing m with
  | nil =>
    cases h
    exact ⟨hm, Nat.le_refl _⟩
  | cons p ps ih =>
    rw [List.foldlM_cons] at h
    obtain ⟨m₁, hload, hrest⟩ := Option.bind_eq_some_iff.mp h
    have htail := fun q hq => hps q (List.mem_cons_of_mem p hq)
    rw [List.length_cons]
    rcases loadLine_cases hload (hps p List.mem_cons_self) with rfl | ⟨e, hclean, -, rfl⟩
    · obtain ⟨hall, hlen⟩ := ih htail hm hrest
      exact ⟨hall, by omega⟩
    · have hput : ∀ e' ∈ (m.insert e.1 e.2).toList, Clean e'.1.bytes e'.2 :=
        OrderedMap.forall_mem_putList hm hclean fun _ hv => hv
      obtain ⟨hall, hlen⟩ := ih htail hput hrest
      have hle : (m.insert e.1 e.2).toList.length ≤ m.toList.length + 1 :=
        OrderedMap.length_putList_le m.toList
      exact ⟨hall, by omega⟩

private theorem loadText_bounds {text : Text} (h : loadText text = some m) :
    (∀ e ∈ m.toList, Clean e.1.bytes e.2) ∧ m.toList.length ≤ (pieces 255 [] text).length := by
  obtain ⟨hall, hlen⟩ := load_bounds (newline_notMem_dropLast List.not_mem_nil)
    (fun e he => absurd he List.not_mem_nil) h
  exact ⟨hall, hlen.trans (Nat.le_of_eq (Nat.zero_add _))⟩

/-- An entry whose name is greater than all others comes last. -/
theorem toList_insert_of_append {es : List (ByteString × Text)}
    (h : m'.toList = m.toList ++ e :: es) : (m.insert e.1 e.2).toList = m.toList ++ [e] := by
  have hsorted := m'.sorted
  rw [h] at hsorted
  exact OrderedMap.putList_of_forall_lt fun e' he' =>
    (List.pairwise_append.mp hsorted).2.2 e' he' e List.mem_cons_self

/-- Entries that are read in the order of their names come out as they are. -/
theorem load_bodies {es : List (ByteString × Text)} (hclean : ∀ e ∈ es, Clean e.1.bytes e.2)
    (h : m'.toList = m.toList ++ es) :
    (es.map fun e => body e ++ [newline]).foldlM loadLine m = some m' := by
  induction es generalizing m with
  | nil =>
    rw [List.append_nil] at h
    exact congrArg some (OrderedMap.ext h.symm)
  | cons e es ih =>
    rw [List.map_cons, List.foldlM_cons, loadLine_body (hclean e List.mem_cons_self) (.inr rfl)]
    apply ih fun e' he' => hclean e' (List.mem_cons_of_mem e he')
    rw [toList_insert_of_append h, h, List.append_assoc, List.singleton_append]

end Entries

/-! ### What the writer leaves in the file -/

section Written

variable {e : ByteString × Text} {m : Map}

private theorem entryLine_eq (h : Clean e.1.bytes e.2) :
    entryLine e = (body e ++ [newline]).take 127 := by
  rw [entryLine, cString_of_notMem h.1.2.2.1, cString_of_notMem h.2.1.2.2.1]
  rfl

private theorem entryLine_of_lt (h : Clean e.1.bytes e.2) (hlt : (body e).length < 127) :
    entryLine e = body e ++ [newline] := by
  rw [entryLine_eq h, List.take_of_length_le]
  rw [List.length_append, List.length_singleton]
  omega

private theorem entryLine_of_le (h : Clean e.1.bytes e.2) (hle : 127 ≤ (body e).length) :
    entryLine e = (body e).take 127 := by
  rw [entryLine_eq h, List.take_append_of_le_length hle]

private theorem newline_notMem_body (h : Clean e.1.bytes e.2) : newline ∉ body e :=
  not_mem_body (by decide) h.1.2.2.2.1 h.2.1.2.2.2.1

private theorem shortLine_entryLine (h : Clean e.1.bytes e.2) : ShortLine 127 (entryLine e) := by
  constructor
  · rw [entryLine_eq h, List.length_take]
    exact Nat.min_le_left _ _
  · by_cases hlt : (body e).length < 127
    · exact ⟨body e, newline_notMem_body h, .inr (entryLine_of_lt h hlt)⟩
    · refine ⟨(body e).take 127, fun hn => newline_notMem_body h (List.mem_of_mem_take hn), .inl ?_⟩
      exact entryLine_of_le h (Nat.not_lt.mp hlt)

private theorem entryLine_ne_nil (h : Clean e.1.bytes e.2) : entryLine e ≠ [] := by
  intro hnil
  have hlen := congrArg List.length hnil
  rw [entryLine_eq h, List.length_take, List.length_append, List.length_singleton,
    List.length_nil] at hlen
  omega

variable {first : List (ByteString × Text)}

/-- Where all entries but the last have their newline, the last line is read with the others in the
map. -/
theorem loadText_written (hclean : ∀ e' ∈ first ++ [e], Clean e'.1.bytes e'.2)
    (hfirst : ∀ e ∈ first, (body e).length < 127) (hm : m.toList = first) :
    loadText ((first ++ [e]).flatMap entryLine) = loadLine m (entryLine e) := by
  have hlines : first.map entryLine = first.map fun e => body e ++ [newline] :=
    List.map_congr_left fun e he =>
      entryLine_of_lt (hclean e (List.mem_append_left _ he)) (hfirst e he)
  have hlast := hclean e (List.mem_append_right _ List.mem_cons_self)
  have hpieces : pieces 255 [] ((first ++ [e]).flatMap entryLine) =
      first.map (fun e => body e ++ [newline]) ++ [entryLine e] := by
    have hfit : ∀ line ∈ first.map body, newline ∉ line ∧ line.length < 255 := by
      intro line hline
      obtain ⟨e', he', rfl⟩ := List.mem_map.mp hline
      have hlt := hfirst e' he'
      exact ⟨newline_notMem_body (hclean e' (List.mem_append_left _ he')), by omega⟩
    have hread := pieces_lines hfit (entryLine e)
    rw [List.map_map, pieces_of_shortLine (shortLine_entryLine hlast) (entryLine_ne_nil hlast)
      (by omega)] at hread
    rw [List.flatMap_append, List.flatMap_singleton, List.flatMap_def, hlines]
    exact hread
  have hload : (first.map fun e => body e ++ [newline]).foldlM loadLine OrderedMap.empty = some m :=
    load_bodies (fun e he => hclean e (List.mem_append_left _ he)) hm
  rw [loadText, hpieces, List.foldlM_append, hload]
  simp only [List.foldlM_cons, List.foldlM_nil, bind_pure, Option.bind_eq_bind, Option.bind_some]

/-- An entry that is not the last one and loses its newline makes the reader miss an entry. -/
theorem body_lt_of_loadText (hclean : ∀ e ∈ m.toList, Clean e.1.bytes e.2)
    (h : loadText (m.toList.flatMap entryLine) = some m) (hm : m.toList = first ++ [e]) :
    ∀ e ∈ first, (body e).length < 127 := by
  intro e' he'
  by_contra hge
  obtain ⟨before, after, rfl⟩ := List.append_of_mem he'
  have hlen := (loadText_bounds h).2
  rw [hm] at hclean hlen
  rw [List.append_assoc, List.cons_append] at hclean hlen
  have hopen := hclean e' (List.mem_append_right _ List.mem_cons_self)
  have hshort : ∀ es : List (ByteString × Text), (∀ e ∈ es, Clean e.1.bytes e.2) →
      ∀ line ∈ es.map entryLine, ShortLine 127 line := by
    intro es hes line hline
    obtain ⟨e₁, he₁, rfl⟩ := List.mem_map.mp hline
    exact shortLine_entryLine (hes e₁ he₁)
  have hnone : newline ∉ entryLine e' := by
    rw [entryLine_of_le hopen (by omega)]
    exact fun hn => newline_notMem_body hopen (List.mem_of_mem_take hn)
  have hcount := @length_pieces_lt_of_open 127 255 [] (entryLine e') (before.map entryLine)
    ((after ++ [e]).map entryLine)
    (hshort before fun e₁ he₁ => hclean e₁ (List.mem_append_left _ he₁))
    (hshort _ fun e₁ he₁ => hclean e₁ (List.mem_append_right _ (List.mem_cons_of_mem e' he₁)))
    (shortLine_entryLine hopen).1 hnone (by simp) (by omega) (by decide)
  rw [← List.map_cons, ← List.map_append, ← List.flatMap_def, List.length_map, if_pos rfl] at hcount
  omega

/-- An entry that is read back from its line has lost no byte of its own. -/
theorem body_le_of_loadLine {before : Map} (hclean : Clean e.1.bytes e.2) (hnot : e ∉ before.toList)
    (h : loadLine before (entryLine e) = some m) (hmem : e ∈ m.toList) :
    (body e).length ≤ 127 := by
  by_contra hgt
  have hcut := entryLine_of_le hclean (by omega)
  have hline : newline ∉ (entryLine e).dropLast := by
    rw [hcut]
    exact fun hn => newline_notMem_body hclean
      (List.mem_of_mem_take ((List.dropLast_sublist _).mem hn))
  rcases loadLine_cases h hline with rfl | ⟨e₁, -, hlen, rfl⟩
  · exact hnot hmem
  · rcases OrderedMap.mem_putList hmem with hold | hnew | ⟨v, hold, heq⟩
    · exact hnot hold
    · rw [hcut, List.length_take, ← show e = e₁ from hnew] at hlen
      omega
    · rw [heq] at hnot
      exact hnot hold

/-- The written file gives the map back exactly when its entries fit. -/
theorem loadText_written_iff (hclean : ∀ e ∈ m.toList, Clean e.1.bytes e.2) :
    loadText (m.toList.flatMap entryLine) = some m ↔ Fits m.toList := by
  rcases List.eq_nil_or_concat' m.toList with hnil | ⟨first, e, hm⟩
  · have hempty : m = OrderedMap.empty := OrderedMap.ext hnil
    subst hempty
    exact iff_of_true rfl (by decide)
  · have hsorted := m.sorted
    have hall := hclean
    rw [hm] at hsorted hall
    obtain ⟨hsortedFirst, -, hbelow⟩ := List.pairwise_append.mp hsorted
    let before : Map := ⟨first, hsortedFirst⟩
    have hmem : e ∈ m.toList := hm ▸ List.mem_append_right _ List.mem_cons_self
    have hlast := hclean e hmem
    rw [Fits, hm, List.dropLast_concat, List.getLast?_concat]
    constructor
    · intro h
      have hfirst := body_lt_of_loadText hclean (hm ▸ h) hm
      rw [loadText_written (m := before) hall hfirst rfl] at h
      have hnot : e ∉ first := fun he => lt_irrefl _ (hbelow e he e List.mem_cons_self)
      refine ⟨hfirst, fun e' he' => ?_⟩
      rw [← Option.some.inj he']
      exact body_le_of_loadLine hlast hnot h hmem
    · rintro ⟨hfirst, hfit⟩
      have hfit := hfit e rfl
      have hmap : before.insert e.1 e.2 = m :=
        OrderedMap.ext ((toList_insert_of_append (m := before) hm).trans hm.symm)
      rw [loadText_written (m := before) hall hfirst rfl]
      by_cases hlt : (body e).length < 127
      · rw [entryLine_of_lt hlast hlt, loadLine_body hlast (.inr rfl), hmap]
      · have hline := loadLine_body (m := before) hlast (.inl rfl)
        rw [List.append_nil] at hline
        rw [entryLine_of_le hlast (by omega), List.take_of_length_le hfit, hline, hmap]

end Written

/-! ### Readers -/

/-- A reader of a file that could be opened, after any calls of `SetConfigValue` with entries that a
line can carry. -/
inductive Loaded : ConfigFileReader → Prop where
  | load {stale : Bool} {text : Text} {r : ConfigFileReader}
      (h : loadFile stale (some text) = some r) : Loaded r
  | set {r : ConfigFileReader} {name value : Text} (h : Loaded r) (hclean : Clean name value)
      (disk : Disk) (file : Text) : Loaded (r.setConfigValue name value disk file).2.1

section Readers

variable {r : ConfigFileReader}

private theorem Loaded.loadOk (h : Loaded r) : r.loadOk = true := by
  induction h with
  | load h =>
    obtain ⟨m, -, rfl⟩ := Option.map_eq_some_iff.mp h
    rfl
  | set h _ disk file ih => rw [ConfigFileReader.setConfigValue, if_pos ih, ih]

private theorem Loaded.clean (h : Loaded r) : ∀ e ∈ r.configMap.toList, Clean e.1.bytes e.2 := by
  induction h with
  | load h =>
    obtain ⟨m, hm, rfl⟩ := Option.map_eq_some_iff.mp h
    exact (loadText_bounds hm).1
  | set h hclean disk file ih =>
    rw [ConfigFileReader.setConfigValue, if_pos h.loadOk]
    exact OrderedMap.forall_mem_putList ih hclean fun _ _ => hclean

/-- A write that reports no failure has written every entry. -/
theorem writeEntries_eq {fails : Nat → Option Nat} {n : Nat} {es : List (ByteString × Text)}
    {file : Text} (h : (writeEntries fails n es file).1 = 0) :
    (writeEntries fails n es file).2 = file ++ es.flatMap entryLine := by
  induction es generalizing n file with
  | nil => rw [writeEntries, List.flatMap_nil, List.append_nil]
  | cons e es ih =>
    unfold writeEntries at h ⊢
    split at h
    · rw [ih h, List.flatMap_cons, List.append_assoc]
    · cases h

private theorem writeFile_eq
    {m : Map} {disk : Disk} {file : Text} (h : (writeFile m disk file).1 = 0) :
    (writeFile m disk file).2 = m.toList.flatMap entryLine := by
  unfold writeFile at h ⊢
  split at h
  · next hopens => rw [if_pos hopens, writeEntries_eq h, List.nil_append]
  · cases h

/-- After a `SetConfigValue` that returns 0 the reader has the new value and all others as before,
and a new reader of the file is the same one exactly when the entries, the new one among them, fit
the writer's buffer. -/
theorem rewrite_survives_iff (hr : Loaded r) {name value : Text} (hclean : Clean name value)
    {disk : Disk} {file : Text} (hset : (r.setConfigValue name value disk file).1 = 0)
    (stale : Bool) :
    (∀ other, (r.setConfigValue name value disk file).2.1.getConfigName other =
      if other = name then some value else r.getConfigName other) ∧
    (loadFile stale (some (r.setConfigValue name value disk file).2.2) =
        some (r.setConfigValue name value disk file).2.1 ↔
      Fits (r.configMap.set ⟨name⟩ value).toList) := by
  have hall := (hr.set hclean disk file).clean
  rw [ConfigFileReader.setConfigValue, if_pos hr.loadOk] at hset hall ⊢
  constructor
  · intro other
    simp only [ConfigFileReader.getConfigName, hr.loadOk, if_true, ByteString.find_set]
    split
    · rw [Option.map_some, cString_of_notMem hclean.2.1.2.2.1]
    · rfl
  · simp only [loadFile, hr.loadOk]
    rw [writeFile_eq hset, ← loadText_written_iff hall]
    constructor
    · intro h
      obtain ⟨m, hm, heq⟩ := Option.map_eq_some_iff.mp h
      cases heq
      exact hm
    · intro h
      rw [h]
      rfl

end Readers

/-- The reader of the file `b=1`. -/
def oneEntry : ConfigFileReader := ⟨true, OrderedMap.empty.insert ⟨[98]⟩ [49]⟩

private theorem loaded_oneEntry : Loaded oneEntry :=
  @Loaded.load false [98, 61, 49, 10] oneEntry rfl

/-- A disk that writes everything. -/
def goodDisk : Disk := ⟨true, fun _ => none⟩

/-- One entry is set and read back. -/
theorem rewrite_survives_iff_oneEntry :
    loadFile false (some (oneEntry.setConfigValue [97] [50] goodDisk []).2.2) =
      some (oneEntry.setConfigValue [97] [50] goodDisk []).2.1 :=
  (rewrite_survives_iff loaded_oneEntry (by decide) rfl false).2.mpr (by decide)

/-- A value of 130 bytes. -/
def longValue : Text := List.replicate 130 120

/-- The line of `a` is cut at 127 bytes, without newline, and the entry of `b` is read as a part of
its value. -/
theorem rewrite_loses_entry :
    Loaded oneEntry ∧ Clean [97] longValue ∧
    (oneEntry.setConfigValue [97] longValue goodDisk []).1 = 0 ∧
    (oneEntry.setConfigValue [97] longValue goodDisk []).2.1.getConfigName [98] = some [49] ∧
    (loadFile false (some (oneEntry.setConfigValue [97] longValue goodDisk []).2.2)).map
      (·.getConfigName [98]) = some none := by
  refine ⟨loaded_oneEntry, ?_, ?_, ?_, ?_⟩ <;> decide +kernel

end IMServer.Config

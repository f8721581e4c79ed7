/-
# Lines cut to fit

A text reaches a line buffer in pieces, and nobody says where it is cut. The buffer takes what
there is room for and drops the rest, so all that counts is the text as a whole
(`LineBuffer.Holds`): its first bytes are in the buffer, and the cells behind them are as they
were. This is so before the first piece, and every piece keeps it so.

A record is written in the same way into a buffer that lacks its last cell. That cell is the
reason why there is always room for the newline (`Record.Fills`).

Nothing is looked up outside of the buffer on the way: with every place checked
(`LineBuffer.write?`, `Record.formatPieces?`) the outcome is the same.

Key definitions: `LineBuffer.write?`, `LineBuffer.Holds`, `Record.formatPieces?`,
`Record.Fills`.
Key theorems: `LineBuffer.holds_writeAll`, `LineBuffer.writeAll?_eq`,
`Record.formatInto_fills`, `LineBuffer.cut_to_fit`.
-/
import Mathlib.Data.List.Basic
import PulseKernel.Log.Record

namespace PulseKernel
namespace Log

namespace LineBuffer

/-! ### Writing with every place checked -/

/-- The first bytes, if there are as many. -/
def firstBytes? (bytes : List UInt8) (count : Nat) : Option (List UInt8) :=
  if count ≤ bytes.length then some (bytes.take count) else none

/-- The cells with those from `start` to `stop` replaced. They have to be there, and as many as
the bytes that replace them. -/
def replace? (cells : List UInt8) (start stop : Nat) (bytes : List UInt8) :
    Option (List UInt8) :=
  if start ≤ stop ∧ stop ≤ cells.length ∧ bytes.length = stop - start then
    some (cells.take start ++ bytes ++ cells.drop stop)
  else none

/-- Writes as many of the bytes as there is room for behind the first `pos` cells: the cells
afterwards, and the place where writing goes on. -/
def write? (cells : List UInt8) (pos : Nat) (bytes : List UInt8) : Option (List UInt8 × Nat) :=
  if pos ≤ cells.length then
    let count := min bytes.length (cells.length - pos)
    if 0 < count then do
      let fitting ← firstBytes? bytes count
      let cells ← replace? cells pos (pos + count) fitting
      return (cells, pos + count)
    else some (cells, pos)
  else none

/-- Writes one piece after the other. -/
def writeAll? (cells : List UInt8) (pos : Nat) : List (List UInt8) → Option (List UInt8 × Nat)
  | [] => some (cells, pos)
  | piece :: pieces => do
    let (cells, pos) ← write? cells pos piece
    writeAll? cells pos pieces

/-- A buffer that has the place of writing inside it has all places that are looked up. -/
theorem write?_eq (b : LineBuffer) (bytes : List UInt8) :
    write? b.cells b.pos bytes = some ((b.write bytes).cells, (b.write bytes).pos) := by
  have hpos := b.pos_le
  have htake : bytes.take (b.cells.length - b.pos) =
      bytes.take (min bytes.length (b.cells.length - b.pos)) := by
    rw [List.take_eq_take_min, Nat.min_comm]
  have hlength : (bytes.take (min bytes.length (b.cells.length - b.pos))).length =
      min bytes.length (b.cells.length - b.pos) := by
    rw [List.length_take]
    omega
  simp only [write?, if_pos hpos, write, htake, hlength]
  generalize hcount : min bytes.length (b.cells.length - b.pos) = count at hlength
  by_cases hzero : 0 < count
  · have hthere : b.pos ≤ b.pos + count ∧ b.pos + count ≤ b.cells.length ∧
        (bytes.take count).length = b.pos + count - b.pos := by omega
    have hbytes : count ≤ bytes.length := by omega
    simp only [if_pos hzero, firstBytes?, if_pos hbytes, replace?, if_pos hthere,
      Option.bind_eq_bind, Option.bind_some, Option.pure_def]
  · obtain rfl : count = 0 := by omega
    simp

theorem writeAll?_eq (b : LineBuffer) (pieces : List (List UInt8)) :
    writeAll? b.cells b.pos pieces =
      some ((pieces.foldl write b).cells, (pieces.foldl write b).pos) := by
  induction pieces generalizing b with
  | nil => rfl
  | cons piece pieces ih =>
    rw [writeAll?, write?_eq]
    exact ih (b.write piece)

/-! ### What a buffer holds -/

/-- Over the given cells this text was written, as far as there was room for it. -/
structure Holds (b : LineBuffer) (cells text : List UInt8) : Prop where
  cells_eq : b.cells = text.take cells.length ++ cells.drop text.length
  pos_eq : b.pos = min cells.length text.length

variable {b : LineBuffer} {cells text : List UInt8}

theorem holds_ofCells (cells : List UInt8) : (ofCells cells).Holds cells [] where
  cells_eq := by simp [ofCells]
  pos_eq := by simp [ofCells]

theorem Holds.capacity_eq (h : b.Holds cells text) : b.cells.length = cells.length := by
  rw [h.cells_eq, List.length_append, List.length_take, List.length_drop]
  omega

/-- A piece goes behind the text before it, or into no cell at all if the buffer is full. -/
theorem Holds.write (h : b.Holds cells text) (bytes : List UInt8) :
    (b.write bytes).Holds cells (text ++ bytes) := by
  have hlength := h.capacity_eq
  have hpos : (b.write bytes).pos = min cells.length (text ++ bytes).length := by
    rw [pos_write, capacity, hlength, h.pos_eq, List.length_append]
    omega
  refine ⟨?_, hpos⟩
  simp only [LineBuffer.write, hlength]
  rcases Nat.le_total cells.length text.length with hfull | hroom
  · have hcells : b.cells = text.take cells.length := by
      rw [h.cells_eq, List.drop_eq_nil_of_le hfull, List.append_nil]
    have hend : b.pos = cells.length := by rw [h.pos_eq, Nat.min_eq_left hfull]
    have hgone : cells.drop (text ++ bytes).length = [] :=
      List.drop_eq_nil_of_le (by rw [List.length_append]; omega)
    rw [hgone, List.take_append_of_le_length hfull, hend, ← hcells, Nat.sub_self]
    simp [← hlength]
  · have hcells : b.cells = text ++ cells.drop text.length := by
      rw [h.cells_eq, List.take_of_length_le hroom]
    have hend : b.pos = text.length := by rw [h.pos_eq, Nat.min_eq_right hroom]
    have hbehind : cells.drop (text.length + (bytes.take (cells.length - text.length)).length) =
        cells.drop (text ++ bytes).length := by
      rw [List.length_take, List.length_append]
      rcases Nat.le_total bytes.length (cells.length - text.length) with hle | hle
      · rw [Nat.min_eq_right hle]
      · rw [List.drop_eq_nil_of_le (by omega), List.drop_eq_nil_of_le (by omega)]
    rw [hend, hcells, List.take_left, ← List.drop_drop, List.drop_left, List.drop_drop, hbehind,
      List.take_append, List.take_of_length_le hroom]

theorem holds_foldl (h : b.Holds cells text) (pieces : List (List UInt8)) :
    (pieces.foldl LineBuffer.write b).Holds cells (text ++ pieces.flatten) := by
  induction pieces generalizing b text with
  | nil => simpa using h
  | cons piece pieces ih =>
    have := ih (h.write piece)
    rwa [List.append_assoc, ← List.flatten_cons] at this

theorem holds_writeAll (cells : List UInt8) (pieces : List (List UInt8)) :
    (pieces.foldl LineBuffer.write (ofCells cells)).Holds cells pieces.flatten := by
  simpa using holds_foldl (holds_ofCells cells) pieces

theorem Holds.length_take (h : b.Holds cells text) : (text.take cells.length).length = b.pos := by
  rw [List.length_take, h.pos_eq]

theorem Holds.written_eq (h : b.Holds cells text) : b.written = text.take cells.length := by
  rw [written, h.cells_eq, List.take_left' h.length_take]

/-- The cells behind what was written are as they were. -/
theorem Holds.drop_pos (h : b.Holds cells text) : b.cells.drop b.pos = cells.drop b.pos := by
  rw [h.cells_eq, List.drop_left' h.length_take, h.pos_eq]
  rcases Nat.le_total cells.length text.length with hfull | hroom
  · rw [List.drop_eq_nil_of_le hfull, List.drop_eq_nil_of_le (by omega)]
  · rw [Nat.min_eq_right hroom]

/-- With one more cell, there is room for a byte behind what was written. -/
theorem Holds.set_concat (h : b.Holds cells text) (last byte : UInt8) :
    (b.cells ++ [last]).set b.pos byte =
      text.take cells.length ++ byte :: (cells ++ [last]).drop (b.pos + 1) := by
  have hroom : b.pos < (b.cells ++ [last]).length := by
    rw [List.length_append, List.length_singleton]
    exact Nat.lt_succ_of_le b.pos_le
  have hpos : b.pos ≤ cells.length := h.capacity_eq ▸ b.pos_le
  have hdrop : (b.cells ++ [last]).drop b.pos = (cells ++ [last]).drop b.pos := by
    rw [List.drop_append_of_le_length b.pos_le, List.drop_append_of_le_length hpos, h.drop_pos]
  have htake : (b.cells ++ [last]).take b.pos = text.take cells.length := by
    rw [List.take_append_of_le_length b.pos_le, ← h.written_eq, written]
  rw [List.set_eq_take_append_cons_drop, if_pos hroom, htake, ← List.drop_drop, hdrop,
    List.drop_drop]

theorem Holds.unique {b' : LineBuffer} (h : b.Holds cells text) (h' : b'.Holds cells text) :
    b = b' := by
  have hcells := h.cells_eq.trans h'.cells_eq.symm
  have hpos := h.pos_eq.trans h'.pos_eq.symm
  cases b
  cases b'
  cases hcells
  cases hpos
  rfl

/-- It does not matter how a text is cut. -/
theorem foldl_write_eq (cells : List UInt8) (pieces : List (List UInt8)) :
    pieces.foldl LineBuffer.write (ofCells cells) = (ofCells cells).write pieces.flatten :=
  (holds_writeAll cells pieces).unique (by simpa using (holds_ofCells cells).write pieces.flatten)

end LineBuffer

/-! ### Records -/

/-- The name of the level in capitals, padded to five characters. -/
def Level.padded (l : Level) : String :=
  String.ofList ((l.name.toList.map Char.toUpper).rightpad 5 ' ')

theorem Level.label_eq (l : Level) : l.label = l.padded := by
  cases l <;> decide

namespace Record

variable {r : Record} {buffer : List UInt8}

/-- The bytes of the record on a line of any length. -/
def fullText (r : Record) : List UInt8 :=
  utf8 ("[" ++ r.level.padded ++ "] " ++ r.message)

theorem utf8_text (r : Record) : utf8 r.text = r.fullText := by
  rw [text, fullText, Level.label_eq]
  rfl

/-- Formats a text that comes in pieces, with every place checked: the buffer afterwards, and the
length of the line in it. -/
def formatPieces? (buffer : List UInt8) (pieces : List (List UInt8)) :
    Option (List UInt8 × Nat) :=
  match buffer.getLast? with
  | none => some (buffer, 0)
  | some last => do
    let (cells, pos) ← LineBuffer.writeAll? buffer.dropLast 0 pieces
    let cells := cells ++ [last]
    if pos < cells.length then some (cells.set pos newline, pos + 1) else none

/-- However the text of a record comes in pieces, it is formatted as it is in one piece. -/
theorem formatPieces?_eq {pieces : List (List UInt8)} (h : pieces.flatten = r.fullText)
    (buffer : List UInt8) : formatPieces? buffer pieces = some (r.formatInto buffer) := by
  unfold formatPieces? formatInto
  cases hlast : buffer.getLast? with
  | none => rw [List.getLast?_eq_none_iff.mp hlast]
  | some last =>
    have hwritten := LineBuffer.writeAll?_eq (.ofCells buffer.dropLast) pieces
    rw [LineBuffer.foldl_write_eq, h, ← utf8_text] at hwritten
    have hroom := ((LineBuffer.ofCells buffer.dropLast).write (utf8 r.text)).pos_le
    have hlt : ((LineBuffer.ofCells buffer.dropLast).write (utf8 r.text)).pos <
        (((LineBuffer.ofCells buffer.dropLast).write (utf8 r.text)).cells ++ [last]).length := by
      rw [List.length_append, List.length_singleton]
      omega
    show (LineBuffer.writeAll? (LineBuffer.ofCells buffer.dropLast).cells
      (LineBuffer.ofCells buffer.dropLast).pos pieces >>= _) = _
    rw [hwritten]
    exact if_pos hlt

/-- What a buffer is after the record was formatted into it, with a line of this length. -/
structure Fills (r : Record) (buffer after : List UInt8) (length : Nat) : Prop where
  size : after.length = buffer.length
  length_le : length ≤ buffer.length
  length_eq_zero : length = 0 ↔ buffer = []
  /-- The newline is in the buffer, however much of the text is not. -/
  line : buffer ≠ [] →
    after.take length = r.fullText.take (buffer.length - 1) ++ [newline] ∧
      length = (r.fullText.take (buffer.length - 1)).length + 1
  rest : after.drop length = buffer.drop length

/-- The last cell of a buffer is kept for the newline. -/
theorem formatInto_concat (r : Record) (cells : List UInt8) (last : UInt8) :
    r.formatInto (cells ++ [last]) =
      (r.fullText.take cells.length ++
        newline :: (cells ++ [last]).drop ((r.fullText.take cells.length).length + 1),
      (r.fullText.take cells.length).length + 1) := by
  have hbody : ((LineBuffer.ofCells cells).write (utf8 r.text)).Holds cells r.fullText := by
    rw [utf8_text]
    exact (LineBuffer.holds_ofCells cells).write r.fullText
  rw [hbody.length_take, ← hbody.set_concat]
  simp [formatInto]

theorem formatInto_fills (r : Record) (buffer : List UInt8) :
    r.Fills buffer (r.formatInto buffer).1 (r.formatInto buffer).2 := by
  rcases List.eq_nil_or_concat buffer with rfl | ⟨cells, last, hbuffer⟩
  · exact ⟨rfl, Nat.le_refl 0, iff_of_true rfl rfl, fun h => absurd rfl h, rfl⟩
  rw [List.concat_eq_append] at hbuffer
  subst hbuffer
  have hlength : (cells ++ [last]).length - 1 = cells.length := by simp
  have hle : (r.fullText.take cells.length).length + 1 ≤ (cells ++ [last]).length := by
    rw [List.length_take, List.length_append, List.length_singleton]
    omega
  rw [formatInto_concat]
  generalize hbody : r.fullText.take cells.length = body at hle
  constructor
  case size =>
    rw [List.length_append, List.length_cons, List.length_drop]
    omega
  case length_le => exact hle
  case length_eq_zero => simp
  case line =>
    intro _
    rw [hlength, hbody, ← List.singleton_append, ← List.append_assoc]
    exact ⟨List.take_left' (by simp), rfl⟩
  case rest =>
    rw [← List.singleton_append, ← List.append_assoc]
    exact List.drop_left' (by simp)

end Record

/-- What a buffer holds after a text came in pieces is the first part of the text, as much of it
as there is room for, over the cells as they were; and what it holds after a record came in pieces
is the first part of its text and a newline. No place outside of the buffer is looked up. -/
theorem LineBuffer.cut_to_fit :
    (∀ (cells : List UInt8) (pieces : List (List UInt8)),
      ∃ b : LineBuffer, pieces.foldl write (ofCells cells) = b ∧
        writeAll? cells 0 pieces = some (b.cells, b.pos) ∧
        b.written = pieces.flatten.take (min cells.length pieces.flatten.length) ∧
        b.pos = min cells.length pieces.flatten.length ∧
        b.capacity = cells.length ∧ b.cells.drop b.pos = cells.drop b.pos) ∧
      ∀ (r : Record) (buffer : List UInt8) (pieces : List (List UInt8)),
        pieces.flatten = utf8 ("[" ++ r.level.padded ++ "] " ++ r.message) →
        ∃ after length, Record.formatPieces? buffer pieces = some (after, length) ∧
          r.formatInto buffer = (after, length) ∧ r.Fills buffer after length := by
  constructor
  · intro cells pieces
    have hholds := holds_writeAll cells pieces
    refine ⟨_, rfl, writeAll?_eq (ofCells cells) pieces, ?_, hholds.pos_eq, hholds.capacity_eq,
      hholds.drop_pos⟩
    rw [hholds.written_eq, List.take_eq_take_min]
  · intro r buffer pieces h
    exact ⟨_, _, Record.formatPieces?_eq h buffer, rfl, r.formatInto_fills buffer⟩

/-- A warning in a buffer of ten cells, with a character cut in the middle. -/
theorem LineBuffer.cut_to_fit_ten_cells :
    [[91, 87], [65, 82, 78, 32, 93, 32, 195], [], [169, 33]].flatten =
        utf8 ("[" ++ Level.warn.padded ++ "] " ++ "é!") ∧
      ∃ after length,
        Record.formatPieces? (List.replicate 10 7)
          [[91, 87], [65, 82, 78, 32, 93, 32, 195], [], [169, 33]] = some (after, length) ∧
        after.take length = [91, 87, 65, 82, 78, 32, 93, 32, 195, 10] := by
  have htext : [[91, 87], [65, 82, 78, 32, 93, 32, 195], [], [169, 33]].flatten =
      utf8 ("[" ++ Level.warn.padded ++ "] " ++ "é!") := by decide
  obtain ⟨after, length, hpieces, -, hfills⟩ :=
    LineBuffer.cut_to_fit.2 ⟨.warn, "é!"⟩ (List.replicate 10 7) _ htext
  have hline : (Record.fullText ⟨.warn, "é!"⟩).take 9 ++ [Record.newline] =
      [91, 87, 65, 82, 78, 32, 93, 32, 195, 10] := by decide
  exact ⟨htext, after, length, hpieces, (hfills.line (by decide)).1.trans hline⟩

end Log
end PulseKernel

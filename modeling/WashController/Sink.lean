/-!
# Sinks

Where the panel writes: bytes are kept, as far as there is room for them. Of a text that does not
fit, the part that fits is kept, and from then on nothing but the empty text is accepted. Room is
counted in bytes of UTF-8, so a text may be cut inside a character. How a text is divided into
writes makes no difference (`write_append`, `accepts_append`), and nothing more is kept once a text
did not fit (`write_append_of_not_accepts`).
-/

namespace WashController

/-- The bytes written so far, and how many more there is room for. Without a number there is
always room. -/
structure Sink where
  written : ByteArray
  room : Option Nat

namespace Sink

/-- A sink that nothing is written to yet. -/
def empty (room : Option Nat) : Sink :=
  ⟨.empty, room⟩

/-- Whether there is room for the whole of a text. -/
def accepts (sink : Sink) (text : String) : Bool :=
  sink.room.all fun room => text.utf8ByteSize ≤ room

/-- Writes as much of a text as there is room for. -/
def write (sink : Sink) (text : String) : Sink :=
  match sink.room with
  | none => { sink with written := sink.written ++ text.toByteArray }
  | some room =>
    { written := sink.written ++ text.toByteArray.extract 0 room,
      room := some (room - text.utf8ByteSize) }

@[simp]
theorem accepts_empty (sink : Sink) : sink.accepts "" = true := by
  rcases sink with ⟨written, _ | room⟩ <;> simp [accepts]

@[simp]
theorem write_empty (sink : Sink) : sink.write "" = sink := by
  rcases sink with ⟨written, _ | room⟩
  · simp [write]
  · have nothing : ByteArray.empty.extract 0 room = .empty :=
      ByteArray.extract_eq_empty_iff.2 (by simp)
    simp [write, nothing]

/-- Where there is always room, everything is kept, and there is always room afterwards. -/
theorem write_of_room_eq_none {sink : Sink} (unlimited : sink.room = none) (text : String) :
    sink.write text = { sink with written := sink.written ++ text.toByteArray } := by
  simp only [write, unlimited]

theorem accepts_append (sink : Sink) (first second : String) :
    sink.accepts (first ++ second) =
      (sink.accepts first && (sink.write first).accepts second) := by
  rcases sink with ⟨written, _ | room⟩
  · rfl
  · rw [Bool.eq_iff_iff]
    simp only [accepts, write, Option.all_some, String.utf8ByteSize_append, Bool.and_eq_true,
      decide_eq_true_eq]
    omega

theorem write_append (sink : Sink) (first second : String) :
    sink.write (first ++ second) = (sink.write first).write second := by
  rcases sink with ⟨written, _ | room⟩
  · simp [write, ByteArray.append_assoc]
  · simp [write, String.utf8ByteSize_append, ByteArray.append_assoc, ByteArray.extract_append,
      Nat.sub_add_eq]

/-- Of the first text a sink keeps what there is room for. -/
theorem write_empty_some (room : Nat) (text : String) :
    (empty (some room)).write text =
      ⟨text.toByteArray.extract 0 room, some (room - text.toByteArray.size)⟩ := by
  simp [empty, write]

/-- The first text is kept as a whole if there is room for it. -/
theorem write_empty_of_size_le {room : Nat} {text : String}
    (fits : text.toByteArray.size ≤ room) :
    (empty (some room)).write text =
      ⟨text.toByteArray, some (room - text.toByteArray.size)⟩ := by
  have whole : text.toByteArray.extract 0 (max room text.toByteArray.size) = text.toByteArray :=
    ByteArray.extract_zero_max_size
  rw [Nat.max_eq_left fits] at whole
  rw [write_empty_some, whole]

/-- After a text that did not fit there is no room left for anything. -/
theorem write_append_of_not_accepts {sink : Sink} {first : String}
    (full : ¬ sink.accepts first = true) (second : String) :
    sink.write (first ++ second) = sink.write first := by
  rcases sink with ⟨written, _ | room⟩
  · simp [accepts] at full
  · have none : room - first.utf8ByteSize = 0 := by
      simp only [accepts, Option.all_some, decide_eq_true_eq] at full
      omega
    have nothing : second.toByteArray.extract 0 0 = .empty :=
      ByteArray.extract_eq_empty_iff.2 (by simp)
    rw [write_append]
    simp only [write, none, nothing, ByteArray.append_empty, Nat.zero_sub]

end Sink

end WashController

import Mathlib.Data.List.Basic

/-! # Buffers of a fixed size

Writes that stay within a buffer, and the text that fills it from the front.

* **`write`**, **`snprintf`** — writes at an offset.
* **`write_append`**, **`snprintf_append`** — the text from the front, with what is written behind
  it. -/

namespace Buffer

variable {α : Type*}

/-- `memcpy` to an offset of a buffer; `none` where it would go past the end. -/
def write (buf : List α) (off : ℕ) (src : List α) : Option (List α) :=
  if off + src.length ≤ buf.length then some (buf.take off ++ src ++ buf.drop (off + src.length))
  else none

/-- `snprintf` to an offset: of the text, what `room` leaves beside the NUL that ends it. -/
def snprintf [Zero α] (buf : List α) (off room : ℕ) (text : List α) : Option (List α) :=
  if room = 0 then some buf else write buf off (text.take (room - 1) ++ [0])

/-- A write behind the text that fills a buffer. -/
theorem write_append {buf out src : List α} (hout : out <+: buf)
    (hfit : out.length + src.length ≤ buf.length) :
    ∃ buf', write buf out.length src = some buf' ∧ buf'.length = buf.length ∧ out ++ src <+: buf' := by
  obtain ⟨rest, rfl⟩ := hout
  refine ⟨out ++ src ++ rest.drop src.length, ?_, ?_, List.prefix_append _ _⟩
  · rw [write, if_pos hfit]
    simp [List.drop_append]
  · simp only [List.length_append, List.length_drop] at hfit ⊢
    omega

/-- A write that succeeds stays within the buffer, whose size stays. -/
theorem length_of_write {buf src buf' : List α} {off : ℕ} (h : write buf off src = some buf') :
    off + src.length ≤ buf.length ∧ buf'.length = buf.length := by
  rw [write] at h
  split_ifs at h with hfit
  refine ⟨hfit, ?_⟩
  rw [← Option.some.inj h]
  simp only [List.length_append, List.length_take, List.length_drop]
  omega

/-- A text that is shorter than the room for it is written out. -/
theorem snprintf_append [Zero α] {buf out text : List α} {room : ℕ} (hout : out <+: buf)
    (hroom : text.length < room) (hfit : out.length + room ≤ buf.length) :
    ∃ buf', snprintf buf out.length room text = some buf' ∧ buf'.length = buf.length ∧
      out ++ (text ++ [0]) <+: buf' := by
  have htake : text.take (room - 1) = text := List.take_of_length_le (by omega)
  rw [snprintf, if_neg (by omega), htake]
  exact write_append hout (by simp only [List.length_append, List.length_singleton]; omega)

/-- What fills the front of a buffer is all that is read there. -/
theorem take_of_prefix {buf out : List α} (h : out <+: buf) : buf.take out.length = out :=
  (List.prefix_iff_eq_take.mp h).symm

end Buffer

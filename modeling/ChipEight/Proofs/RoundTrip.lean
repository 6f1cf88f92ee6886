import Mathlib.Algebra.Group.Nat.Defs
import ChipEight.Snapshot.Basic

/-!
# What is written is read back

`Format.ReadsBack f a` says that reading what `f` writes for `a` gives `a` and leaves whatever
stands after it. Each combinator keeps it, so it holds of the whole snapshot format at every
snapshot whose program length fits the eight bytes that are there for it
(`Snapshot.format_readsBack`). For a machine this means that restoring a saved state gives the
machine of its own snapshot (`Machine.restore_save`).
-/

namespace ChipEight

namespace Snapshot

namespace Format

variable {α β : Type}

/-- Reading what is written for a value gives the value and leaves the bytes after it. -/
def ReadsBack (f : Format α) (a : α) : Prop :=
  ∀ rest, f.read (f.write a ++ rest) = .ok (a, rest)

theorem byte_readsBack (b : UInt8) : byte.ReadsBack b :=
  fun _ => rfl

theorem ReadsBack.pair {f : Format α} {g : Format β} {p : α × β} (hf : f.ReadsBack p.1)
    (hg : g.ReadsBack p.2) : (f.pair g).ReadsBack p := by
  intro rest
  have hfirst := hf (g.write p.2 ++ rest)
  have hsecond := hg rest
  simp only [Format.pair, List.append_assoc, bind, Except.bind, hfirst, hsecond, pure, Except.pure]

theorem ReadsBack.iso {f : Format α} {wrap : α → β} {unwrap : β → α} {b : β}
    (hf : f.ReadsBack (unwrap b)) (h : wrap (unwrap b) = b) :
    (f.iso wrap unwrap).ReadsBack b := by
  intro rest
  have hread := hf rest
  simp only [Format.iso, bind, Except.bind, hread, h, pure, Except.pure]

theorem ReadsBack.refine {f : Format α} {wrap : α → Except Malformed β} {unwrap : β → α} {b : β}
    (hf : f.ReadsBack (unwrap b)) (h : wrap (unwrap b) = .ok b) :
    (f.refine wrap unwrap).ReadsBack b := by
  intro rest
  have hread := hf rest
  simp only [Format.refine, bind, Except.bind, hread, h, pure, Except.pure]

/-- A vector is read back if each of its entries is. -/
theorem ReadsBack.vector {f : Format α} {n : Nat} {values : Vector α n}
    (h : ∀ a ∈ values, f.ReadsBack a) : (f.vector n).ReadsBack values := by
  induction n with
  | zero =>
    intro rest
    have hnone : values = #v[] := Vector.eq_empty
    rw [hnone]
    rfl
  | succ n ih =>
    intro rest
    obtain ⟨front, last, rfl⟩ : ∃ front last, values = Vector.push front last :=
      ⟨_, _, (Vector.push_pop_back values).symm⟩
    have hfront : (f.vector n).ReadsBack front :=
      ih fun a ha => h a (Vector.mem_push.2 (.inl ha))
    have hlast : f.ReadsBack last := h last (Vector.mem_push.2 (.inr rfl))
    have hinit := hfront (f.write last ++ rest)
    have hend := hlast rest
    simp only [Format.vector] at hinit
    simp only [Format.vector, readVector, Vector.toList_push, List.flatMap_append,
      List.flatMap_singleton, List.append_assoc, bind, Except.bind, hinit, hend, pure, Except.pure]

/-! ## Numbers and flags -/

theorem length_littleEndian (width n : Nat) : (littleEndian width n).length = width := by
  induction width generalizing n with
  | zero => rfl
  | succ width ih => simp only [littleEndian, List.length_cons, ih]

/-- Little-endian bytes hold what of a number fits into them. -/
theorem ofLittleEndian_littleEndian (width n : Nat) :
    ofLittleEndian (littleEndian width n) = n % 256 ^ width := by
  induction width generalizing n with
  | zero => simp [littleEndian, ofLittleEndian, Nat.mod_one]
  | succ width ih =>
    have hlow : (UInt8.ofNat n).toNat = n % 256 := UInt8.toNat_ofNat'
    rw [littleEndian, ofLittleEndian, ih, hlow, Nat.pow_succ', Nat.mod_mul]

/-- A number that fits is read back. -/
theorem natural_readsBack {width n : Nat} (h : n < 256 ^ width) : (natural width).ReadsBack n := by
  intro rest
  have hlen := length_littleEndian width n
  have hle : width ≤ (littleEndian width n ++ rest).length := by
    rw [List.length_append, hlen]
    omega
  simp only [natural, if_pos hle]
  rw [List.take_left' hlen, List.drop_left' hlen, ofLittleEndian_littleEndian,
    Nat.mod_eq_of_lt h]

theorem word16_readsBack (w : UInt16) : word16.ReadsBack w :=
  (natural_readsBack w.toNat_lt).iso (UInt16.ofNat_toNat)

theorem word32_readsBack (w : UInt32) : word32.ReadsBack w :=
  (natural_readsBack w.toNat_lt).iso (UInt32.ofNat_toNat)

theorem word64_readsBack (w : UInt64) : word64.ReadsBack w :=
  (natural_readsBack w.toNat_lt).iso (UInt64.ofNat_toNat)

theorem word128_readsBack (w : BitVec 128) : word128.ReadsBack w :=
  (natural_readsBack w.isLt).iso (BitVec.ofNat_toNat 128 w)

theorem flag_readsBack (b : Bool) : flag.ReadsBack b :=
  (byte_readsBack _).refine (by cases b <;> rfl)

/-- Bytes are read back behind their length. -/
theorem bytes_readsBack {data : Array UInt8} (h : data.size < UInt64.size) :
    bytes.ReadsBack data := by
  intro rest
  have hsize : (UInt64.ofNat data.size).toNat = data.size := UInt64.toNat_ofNat_of_lt h
  have hlen : data.toList.length = data.size := Array.length_toList
  have hfits : (UInt64.ofNat data.size).toNat ≤ (data.toList ++ rest).length := by
    rw [List.length_append, hlen, hsize]
    omega
  have hread := word64_readsBack (UInt64.ofNat data.size) (data.toList ++ rest)
  rw [← List.append_assoc] at hread
  simp only [bytes, hread, bind, Except.bind, if_pos hfits, pure, Except.pure]
  rw [hsize, List.take_left' hlen, List.drop_left' hlen]

end Format

/-! ## Snapshots -/

theorem modeFormat_readsBack (m : Mode) : modeFormat.ReadsBack m :=
  (Format.word32_readsBack _).refine (by cases m <;> rfl)

theorem dialectFormat_readsBack (d : Dialect) : dialectFormat.ReadsBack d := by
  refine Format.ReadsBack.iso ?_ rfl
  exact (Format.flag_readsBack _).pair (Format.flag_readsBack _)

/-- All registers are read back. -/
theorem registersFormat_readsBack (r : Registers) : registersFormat.ReadsBack r := by
  refine Format.ReadsBack.iso ?_ rfl
  refine (Format.ReadsBack.vector fun b _ => Format.byte_readsBack b).pair ?_
  refine (Format.word16_readsBack _).pair ?_
  refine (Format.word64_readsBack _).pair ?_
  refine (Format.word64_readsBack _).pair ?_
  refine (Format.ReadsBack.vector fun w _ => Format.word64_readsBack w).pair ?_
  refine (modeFormat_readsBack _).pair ?_
  refine (dialectFormat_readsBack _).pair ?_
  exact (Format.word16_readsBack _).pair (Format.word64_readsBack _)

theorem gridFormat_readsBack (g : Grid) : gridFormat.ReadsBack g :=
  Format.ReadsBack.iso (.vector fun b _ => Format.flag_readsBack b) rfl

theorem memoryFormat_readsBack (m : Memory) : memoryFormat.ReadsBack m :=
  Format.ReadsBack.iso (.vector fun b _ => Format.byte_readsBack b) rfl

/-- A snapshot is read back from its bytes, whatever comes after them. -/
theorem format_readsBack {s : Snapshot} (h : s.program.size < UInt64.size) :
    format.ReadsBack s := by
  refine Format.ReadsBack.iso ?_ rfl
  refine (registersFormat_readsBack _).pair ?_
  refine (Format.byte_readsBack _).pair ?_
  refine (Format.byte_readsBack _).pair ?_
  refine (Format.word32_readsBack _).pair ?_
  refine (Format.word128_readsBack _).pair ?_
  refine (Format.word128_readsBack _).pair ?_
  refine (gridFormat_readsBack _).pair ?_
  refine (Format.ReadsBack.vector fun b _ => Format.byte_readsBack b).pair ?_
  refine (Format.flag_readsBack _).pair ?_
  exact (memoryFormat_readsBack _).pair (Format.bytes_readsBack h)

end Snapshot

/-- Restoring a saved machine gives the machine of its snapshot. -/
theorem Machine.restore_save {m : Machine} (now : Reading)
    (h : m.program.size < UInt64.size) :
    Machine.restore now m.save = .ok (m.snapshot.machine now) := by
  have hread := Snapshot.format_readsBack (s := m.snapshot) h []
  rw [List.append_nil] at hread
  simp only [restore, save, bind, Except.bind, hread, pure, Except.pure]

end ChipEight

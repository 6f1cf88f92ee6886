import ChipEight.Proofs.RoundTrip

/-!
# One written form

`Format.Canonical f` says that whatever `f` reads stands in the bytes exactly as `f` writes it, so
that no value has a second written form. Together with `Format.ReadsBack` this makes reading and
writing inverse to each other. `Format.Wide f n` says that `f` writes every value with `n` bytes,
and `Format.EndsWith` at which offset the last part of a value begins. The combinators keep all
three, so that the whole snapshot format has them: a snapshot has one written form, 6626 bytes and
the program, and the length of the program stands at offset 6618.
-/

namespace ChipEight

namespace Snapshot

theorem Malformed.bind_eq_ok_iff {α β : Type} {x : Except Malformed α}
    {k : α → Except Malformed β} {b : β} :
    x >>= k = .ok b ↔ ∃ a, x = .ok a ∧ k a = .ok b := by
  cases x with
  | error cause => simp [bind, Except.bind]
  | ok a => simp [bind, Except.bind]

namespace Format

variable {α β γ : Type}

/-! ## What was read -/

/-- A pair is read if its first part is, and behind it the second. -/
theorem read_pair_eq_ok_iff {f : Format α} {g : Format β} {bytes rest : List UInt8}
    {p : α × β} :
    (f.pair g).read bytes = .ok (p, rest) ↔
      ∃ mid, f.read bytes = .ok (p.1, mid) ∧ g.read mid = .ok (p.2, rest) := by
  obtain ⟨a, b⟩ := p
  simp only [Format.pair, Malformed.bind_eq_ok_iff, pure, Except.pure, Except.ok.injEq,
    Prod.mk.injEq, Prod.exists]
  constructor
  · rintro ⟨a', mid, hf, b', rest', hg, ⟨rfl, rfl⟩, rfl⟩
    exact ⟨mid, hf, hg⟩
  · rintro ⟨mid, hf, hg⟩
    exact ⟨a, mid, hf, b, rest, hg, ⟨rfl, rfl⟩, rfl⟩

/-- A value in disguise is read if what it disguises is. -/
theorem read_iso_eq_ok_iff {f : Format α} {wrap : α → β} {unwrap : β → α}
    {bytes rest : List UInt8} {b : β} :
    (f.iso wrap unwrap).read bytes = .ok (b, rest) ↔
      ∃ a, f.read bytes = .ok (a, rest) ∧ wrap a = b := by
  simp only [Format.iso, Malformed.bind_eq_ok_iff, pure, Except.pure, Except.ok.injEq,
    Prod.mk.injEq, Prod.exists]
  constructor
  · rintro ⟨a, rest', hf, hwrap, rfl⟩
    exact ⟨a, hf, hwrap⟩
  · rintro ⟨a, hf, hwrap⟩
    exact ⟨a, rest, hf, hwrap, rfl⟩

/-- A restricted value is read if it is one before the restriction and meets it. -/
theorem read_refine_eq_ok_iff {f : Format α} {wrap : α → Except Malformed β} {unwrap : β → α}
    {bytes rest : List UInt8} {b : β} :
    (f.refine wrap unwrap).read bytes = .ok (b, rest) ↔
      ∃ a, f.read bytes = .ok (a, rest) ∧ wrap a = .ok b := by
  simp only [Format.refine, Malformed.bind_eq_ok_iff, pure, Except.pure, Except.ok.injEq,
    Prod.mk.injEq, Prod.exists]
  constructor
  · rintro ⟨a, rest', hf, b', hwrap, rfl, rfl⟩
    exact ⟨a, hf, hwrap⟩
  · rintro ⟨a, hf, hwrap⟩
    exact ⟨a, rest, hf, b, hwrap, rfl, rfl⟩

/-- A vector is read if all its entries but the last are, and behind them the last. -/
theorem readVector_succ_eq_ok_iff {f : Format α} {n : Nat} {bytes rest : List UInt8}
    {values : Vector α (n + 1)} :
    readVector f (n + 1) bytes = .ok (values, rest) ↔
      ∃ front last mid, readVector f n bytes = .ok (front, mid) ∧
        f.read mid = .ok (last, rest) ∧ front.push last = values := by
  simp only [readVector, Malformed.bind_eq_ok_iff, pure, Except.pure, Except.ok.injEq,
    Prod.mk.injEq, Prod.exists]
  constructor
  · rintro ⟨front, mid, hfront, last, rest', hlast, hpush, rfl⟩
    exact ⟨front, last, mid, hfront, hlast, hpush⟩
  · rintro ⟨front, last, mid, hfront, hlast, hpush⟩
    exact ⟨front, mid, hfront, last, rest, hlast, hpush, rfl⟩

/-- A number is read from as many bytes as it is wide. -/
theorem read_natural_eq_ok_iff {width n : Nat} {bytes rest : List UInt8} :
    (natural width).read bytes = .ok (n, rest) ↔
      width ≤ bytes.length ∧ n = ofLittleEndian (bytes.take width) ∧
        rest = bytes.drop width := by
  simp only [natural]
  split
  · next h => simp only [Except.ok.injEq, Prod.mk.injEq, h, true_and, eq_comm]
  · next h => simp [h]

/-- Bytes are read if as many of them as their length says are there. -/
theorem read_bytes_eq_ok_iff {data : Array UInt8} {bytes rest : List UInt8} :
    Format.bytes.read bytes = .ok (data, rest) ↔
      ∃ size mid, word64.read bytes = .ok (size, mid) ∧ size.toNat ≤ mid.length ∧
        data = (mid.take size.toNat).toArray ∧ rest = mid.drop size.toNat := by
  simp only [Format.bytes, Malformed.bind_eq_ok_iff, Prod.exists]
  constructor
  · rintro ⟨size, mid, hsize, hread⟩
    split at hread
    · next hle =>
      simp only [pure, Except.pure, Except.ok.injEq, Prod.mk.injEq] at hread
      exact ⟨size, mid, hsize, hle, hread.1.symm, hread.2.symm⟩
    · cases hread
  · rintro ⟨size, mid, hsize, hle, rfl, rfl⟩
    exact ⟨size, mid, hsize, by rw [if_pos hle]; rfl⟩

/-- A number that was taken for one of two values is the number of that value. -/
theorem eq_of_choice {ν : Type} [DecidableEq ν] {w zero one : ν} {a b value : α}
    {cause : Malformed}
    (h : (if w = zero then .ok a else if w = one then .ok b else .error cause) =
      Except.ok value) :
    (w = zero ∧ value = a) ∨ (w = one ∧ value = b) := by
  split at h
  · next hzero =>
    cases h
    exact .inl ⟨hzero, rfl⟩
  · split at h
    · next hone =>
      cases h
      exact .inr ⟨hone, rfl⟩
    · cases h

/-! ## What is read is what would be written -/

/-- Whatever is read stands in the bytes exactly as it would be written. -/
def Canonical (f : Format α) : Prop :=
  ∀ bytes a rest, f.read bytes = .ok (a, rest) → bytes = f.write a ++ rest

/-- A byte is written in one way only. -/
theorem byte_canonical : byte.Canonical := by
  intro bytes b rest h
  cases bytes with
  | nil => cases h
  | cons first bytes =>
    cases h
    rfl

theorem Canonical.pair {f : Format α} {g : Format β} (hf : f.Canonical) (hg : g.Canonical) :
    (f.pair g).Canonical := by
  intro bytes p rest h
  obtain ⟨mid, hfirst, hsecond⟩ := read_pair_eq_ok_iff.1 h
  rw [hf _ _ _ hfirst, hg _ _ _ hsecond]
  simp only [Format.pair, List.append_assoc]

/-- A value in disguise is written in one way only if what it disguises is. -/
theorem Canonical.iso {f : Format α} {wrap : α → β} {unwrap : β → α} (hf : f.Canonical)
    (hwrap : ∀ {bytes a rest}, f.read bytes = .ok (a, rest) → unwrap (wrap a) = a) :
    (f.iso wrap unwrap).Canonical := by
  intro bytes b rest h
  obtain ⟨a, hread, rfl⟩ := read_iso_eq_ok_iff.1 h
  simp only [Format.iso, hwrap hread]
  exact hf _ _ _ hread

/-- A restricted value is written in one way only if the value before the restriction is. -/
theorem Canonical.refine {f : Format α} {wrap : α → Except Malformed β} {unwrap : β → α}
    (hf : f.Canonical) (hwrap : ∀ {a b}, wrap a = .ok b → unwrap b = a) :
    (f.refine wrap unwrap).Canonical := by
  intro bytes b rest h
  obtain ⟨a, hread, hb⟩ := read_refine_eq_ok_iff.1 h
  simp only [Format.refine, hwrap hb]
  exact hf _ _ _ hread

/-- A vector is written in one way only if its entries are. -/
theorem Canonical.vector {f : Format α} (hf : f.Canonical) (n : Nat) :
    (f.vector n).Canonical := by
  induction n with
  | zero =>
    intro bytes values rest h
    cases h
    rfl
  | succ n ih =>
    intro bytes values rest h
    obtain ⟨front, last, mid, hfront, hlast, rfl⟩ := readVector_succ_eq_ok_iff.1 h
    have hinit : bytes = (f.vector n).write front ++ mid := ih _ _ _ hfront
    rw [hinit, hf _ _ _ hlast]
    simp only [Format.vector, Vector.toList_push, List.flatMap_append, List.flatMap_singleton,
      List.append_assoc]

/-- Bytes are the little-endian bytes of the number that they hold. -/
theorem littleEndian_ofLittleEndian (bytes : List UInt8) :
    littleEndian bytes.length (ofLittleEndian bytes) = bytes := by
  induction bytes with
  | nil => rfl
  | cons b bytes ih =>
    have hb := b.toNat_lt
    have hlow : UInt8.ofNat (b.toNat + 256 * ofLittleEndian bytes) = b := by
      rw [← UInt8.toNat_inj, UInt8.toNat_ofNat']
      omega
    have hhigh : (b.toNat + 256 * ofLittleEndian bytes) / 256 = ofLittleEndian bytes := by omega
    rw [List.length_cons, ofLittleEndian, littleEndian, hlow, hhigh, ih]

/-- Bytes hold a number that fits into them. -/
theorem ofLittleEndian_lt (bytes : List UInt8) : ofLittleEndian bytes < 256 ^ bytes.length := by
  induction bytes with
  | nil => exact Nat.one_pos
  | cons b bytes ih =>
    have hb := b.toNat_lt
    rw [ofLittleEndian, List.length_cons, Nat.pow_succ]
    omega

/-- A number is written in one way only. -/
theorem natural_canonical (width : Nat) : (natural width).Canonical := by
  intro bytes n rest h
  obtain ⟨hle, rfl, rfl⟩ := read_natural_eq_ok_iff.1 h
  have hlen : (bytes.take width).length = width := List.length_take_of_le hle
  have hwrite := littleEndian_ofLittleEndian (bytes.take width)
  rw [hlen] at hwrite
  simp only [natural, hwrite, List.take_append_drop]

theorem natural_lt {width n : Nat} {bytes rest : List UInt8}
    (h : (natural width).read bytes = .ok (n, rest)) : n < 256 ^ width := by
  obtain ⟨hle, rfl, rfl⟩ := read_natural_eq_ok_iff.1 h
  have hlt := ofLittleEndian_lt (bytes.take width)
  rwa [List.length_take_of_le hle] at hlt

theorem word16_canonical : word16.Canonical :=
  (natural_canonical 2).iso fun h => UInt16.toNat_ofNat_of_lt (natural_lt h)

theorem word32_canonical : word32.Canonical :=
  (natural_canonical 4).iso fun h => UInt32.toNat_ofNat_of_lt (natural_lt h)

theorem word64_canonical : word64.Canonical :=
  (natural_canonical 8).iso fun h => UInt64.toNat_ofNat_of_lt (natural_lt h)

theorem word128_canonical : word128.Canonical :=
  (natural_canonical 16).iso fun h => Nat.mod_eq_of_lt (natural_lt h)

theorem flag_canonical : flag.Canonical := by
  refine byte_canonical.refine ?_
  intro b value h
  obtain ⟨rfl, rfl⟩ | ⟨rfl, rfl⟩ := eq_of_choice h
  · rfl
  · rfl

/-- Bytes behind their length are written in one way only. -/
theorem bytes_canonical : Format.bytes.Canonical := by
  intro bytes data rest h
  obtain ⟨size, mid, hsize, hle, rfl, rfl⟩ := read_bytes_eq_ok_iff.1 h
  have hlen : (mid.take size.toNat).toArray.size = size.toNat := by
    rw [List.size_toArray, List.length_take_of_le hle]
  rw [word64_canonical _ _ _ hsize]
  simp only [Format.bytes, hlen, UInt64.ofNat_toNat, List.append_assoc, List.take_append_drop]

/-! ## How long the written form is -/

/-- Every value is written with `n` bytes. -/
def Wide (f : Format α) (n : Nat) : Prop :=
  ∀ a, (f.write a).length = n

theorem byte_wide : byte.Wide 1 :=
  fun _ => rfl

theorem natural_wide (width : Nat) : (natural width).Wide width :=
  length_littleEndian width

theorem Wide.pair {f : Format α} {g : Format β} {n k : Nat} (hf : f.Wide n) (hg : g.Wide k) :
    (f.pair g).Wide (n + k) := by
  intro p
  simp only [Format.pair, List.length_append, hf p.1, hg p.2]

theorem Wide.iso {f : Format α} {n : Nat} (hf : f.Wide n) (wrap : α → β) (unwrap : β → α) :
    (f.iso wrap unwrap).Wide n :=
  fun b => hf (unwrap b)

theorem Wide.refine {f : Format α} {n : Nat} (hf : f.Wide n) (wrap : α → Except Malformed β)
    (unwrap : β → α) : (f.refine wrap unwrap).Wide n :=
  fun b => hf (unwrap b)

/-- A vector is as wide as its entries together. -/
theorem Wide.vector {f : Format α} {n : Nat} (hf : f.Wide n) (k : Nat) :
    (f.vector k).Wide (k * n) := by
  intro values
  have hsum : (values.toList.map fun a => (f.write a).length) =
      List.replicate k n := by
    rw [List.map_congr_left fun a _ => hf a, List.map_const', Vector.length_toList]
  simp only [Format.vector, List.length_flatMap, hsum, List.sum_replicate_nat]

theorem word16_wide : word16.Wide 2 :=
  (natural_wide 2).iso _ _

theorem word32_wide : word32.Wide 4 :=
  (natural_wide 4).iso _ _

theorem word64_wide : word64.Wide 8 :=
  (natural_wide 8).iso _ _

theorem word128_wide : word128.Wide 16 :=
  (natural_wide 16).iso _ _

theorem flag_wide : flag.Wide 1 :=
  byte_wide.refine _ _

theorem length_write_bytes (data : Array UInt8) :
    (Format.bytes.write data).length = 8 + data.size := by
  have hsize := word64_wide (UInt64.ofNat data.size)
  simp only [Format.bytes, List.length_append, hsize, Array.length_toList]

/-- What `f` writes for a value ends, from an offset on, with what `g` writes for a part of it, and
reading a value ends with reading that part. -/
structure EndsWith (f : Format α) (offset : Nat) (g : Format β) (part : α → β) : Prop where
  write : ∀ a, ∃ front, f.write a = front ++ g.write (part a) ∧ front.length = offset
  read : ∀ bytes a rest, f.read bytes = .ok (a, rest) → ∃ mid, g.read mid = .ok (part a, rest)

theorem EndsWith.refl (f : Format α) : f.EndsWith 0 f id where
  write _ := ⟨[], rfl, rfl⟩
  read bytes _ _ h := ⟨bytes, h⟩

/-- What the second part of a pair ends with, the pair ends with, further on by the width of the
first part. -/
theorem EndsWith.pair {f : Format α} {g : Format β} {h : Format γ} {n offset : Nat}
    {part : β → γ} (hf : f.Wide n) (hg : g.EndsWith offset h part) :
    (f.pair g).EndsWith (n + offset) h fun p => part p.2 where
  write p := by
    obtain ⟨front, hwrite, hlen⟩ := hg.write p.2
    refine ⟨f.write p.1 ++ front, ?_, ?_⟩
    · simp only [Format.pair, hwrite, List.append_assoc]
    · rw [List.length_append, hf p.1, hlen]
  read bytes p rest hread := by
    obtain ⟨mid, -, hsecond⟩ := read_pair_eq_ok_iff.1 hread
    exact hg.read mid p.2 rest hsecond

/-- A value in disguise ends with what the value that it disguises ends with. -/
theorem EndsWith.iso {f : Format α} {h : Format γ} {offset : Nat} {part : α → γ}
    {wrap : α → β} {unwrap : β → α} (hf : f.EndsWith offset h part)
    (hwrap : ∀ a, unwrap (wrap a) = a) :
    (f.iso wrap unwrap).EndsWith offset h fun b => part (unwrap b) where
  write b := hf.write (unwrap b)
  read bytes b rest hread := by
    obtain ⟨a, hinner, rfl⟩ := read_iso_eq_ok_iff.1 hread
    rw [hwrap]
    exact hf.read bytes a rest hinner

end Format

/-! ## Snapshots -/

theorem modeFormat_canonical : modeFormat.Canonical := by
  refine Format.word32_canonical.refine ?_
  intro w mode h
  obtain ⟨rfl, rfl⟩ | ⟨rfl, rfl⟩ := Format.eq_of_choice h
  · rfl
  · rfl

theorem dialectFormat_canonical : dialectFormat.Canonical :=
  (Format.flag_canonical.pair Format.flag_canonical).iso fun _ => rfl

/-- All registers are written in one way only. -/
theorem registersFormat_canonical : registersFormat.Canonical := by
  refine Format.Canonical.iso ?_ fun _ => rfl
  refine (Format.byte_canonical.vector 16).pair ?_
  refine Format.word16_canonical.pair ?_
  refine Format.word64_canonical.pair ?_
  refine Format.word64_canonical.pair ?_
  refine (Format.word64_canonical.vector 16).pair ?_
  refine modeFormat_canonical.pair ?_
  refine dialectFormat_canonical.pair ?_
  exact Format.word16_canonical.pair Format.word64_canonical

theorem gridFormat_canonical : gridFormat.Canonical :=
  (Format.flag_canonical.vector 2048).iso fun _ => rfl

theorem memoryFormat_canonical : memoryFormat.Canonical :=
  (Format.byte_canonical.vector 4096).iso fun _ => rfl

/-- A snapshot that is read stands in the bytes as it would be written. -/
theorem format_canonical : format.Canonical := by
  refine Format.Canonical.iso ?_ fun _ => rfl
  refine registersFormat_canonical.pair ?_
  refine Format.byte_canonical.pair ?_
  refine Format.byte_canonical.pair ?_
  refine Format.word32_canonical.pair ?_
  refine Format.word128_canonical.pair ?_
  refine Format.word128_canonical.pair ?_
  refine gridFormat_canonical.pair ?_
  refine (Format.byte_canonical.vector 257).pair ?_
  refine Format.flag_canonical.pair ?_
  exact memoryFormat_canonical.pair Format.bytes_canonical

/-- All registers take 178 bytes. -/
theorem registersFormat_wide : registersFormat.Wide 178 := by
  have hmode : modeFormat.Wide 4 := Format.word32_wide.refine _ _
  have hdialect : dialectFormat.Wide 2 := (Format.flag_wide.pair Format.flag_wide).iso _ _
  refine Format.Wide.iso ?_ _ _
  exact (Format.byte_wide.vector 16).pair <| Format.word16_wide.pair <|
    Format.word64_wide.pair <| Format.word64_wide.pair <| (Format.word64_wide.vector 16).pair <|
    hmode.pair <| hdialect.pair <| Format.word16_wide.pair Format.word64_wide

/-- The program stands at the end of a snapshot, behind 6618 bytes. -/
theorem format_endsWith_program : format.EndsWith 6618 Format.bytes Snapshot.program := by
  have hgrid : gridFormat.Wide 2048 := (Format.flag_wide.vector 2048).iso _ _
  have hmemory : memoryFormat.Wide 4096 := (Format.byte_wide.vector 4096).iso _ _
  exact (Format.EndsWith.pair registersFormat_wide <| .pair Format.byte_wide <|
    .pair Format.byte_wide <| .pair Format.word32_wide <| .pair Format.word128_wide <|
    .pair Format.word128_wide <| .pair hgrid <| .pair (Format.byte_wide.vector 257) <|
    .pair Format.flag_wide <| .pair hmemory <| .refl _).iso fun _ => rfl

/-- The length of the program that is stored in some bytes. -/
def storedLength (bytes : List UInt8) : Nat :=
  Format.ofLittleEndian ((bytes.drop 6618).take 8)

theorem program_size_of_read {bytes rest : List UInt8} {s : Snapshot}
    (h : format.read bytes = .ok (s, rest)) : s.program.size < UInt64.size := by
  obtain ⟨mid, hread⟩ := format_endsWith_program.read bytes s rest h
  obtain ⟨size, tail, -, hle, hdata, -⟩ := Format.read_bytes_eq_ok_iff.1 hread
  rw [hdata, List.size_toArray, List.length_take_of_le hle]
  exact size.toNat_lt

theorem length_write (s : Snapshot) : (format.write s).length = 6626 + s.program.size := by
  obtain ⟨front, hwrite, hlen⟩ := format_endsWith_program.write s
  rw [hwrite, List.length_append, hlen, Format.length_write_bytes]
  omega

/-- The length that is stored in a snapshot is that of its program. -/
theorem storedLength_write {s : Snapshot} (h : s.program.size < UInt64.size)
    (rest : List UInt8) : storedLength (format.write s ++ rest) = s.program.size := by
  obtain ⟨front, hwrite, hlen⟩ := format_endsWith_program.write s
  have hsize := Format.word64_wide (UInt64.ofNat s.program.size)
  have hlt : s.program.size < 256 ^ 8 := h
  have hstored : (UInt64.ofNat s.program.size).toNat = s.program.size :=
    UInt64.toNat_ofNat_of_lt h
  unfold storedLength
  rw [hwrite, List.append_assoc, List.drop_left' hlen, Format.bytes, List.append_assoc,
    List.take_left' hsize]
  calc Format.ofLittleEndian (Format.word64.write (UInt64.ofNat s.program.size))
      = (UInt64.ofNat s.program.size).toNat % 256 ^ 8 :=
        Format.ofLittleEndian_littleEndian 8 _
    _ = s.program.size := by rw [hstored, Nat.mod_eq_of_lt hlt]

end Snapshot

namespace Machine

theorem restore_eq_ok_iff {now : Reading} {bytes : List UInt8} {m : Machine} :
    restore now bytes = .ok m ↔
      ∃ s rest, Snapshot.format.read bytes = .ok (s, rest) ∧ s.machine now = m := by
  simp only [restore, Snapshot.Malformed.bind_eq_ok_iff, pure, Except.pure, Except.ok.injEq,
    Prod.exists]

theorem program_size_of_restore {now : Reading} {bytes : List UInt8} {m : Machine}
    (h : restore now bytes = .ok m) : m.program.size < UInt64.size := by
  obtain ⟨s, rest, hread, rfl⟩ := restore_eq_ok_iff.1 h
  exact Snapshot.program_size_of_read hread

/-- **Round trip.** Whatever a machine has come to, its saved state is restored, also if more bytes
come after it, to the same machine with idle keys, no frame packed yet and the time counted from
the current reading. And the bytes of a state that is restored are those that its machine saves,
up to the end of the program whose length they give. -/
theorem save_round_trip :
    (∀ (m : Machine) (now : Reading) (rest : List UInt8), m.program.size < UInt64.size →
      restore now (m.save ++ rest) = .ok
        { m with
          clock := m.clock.attach now
          screen := { m.screen with packCount := 0 }
          keypad := .idle }) ∧
    ∀ (now : Reading) (bytes : List UInt8) (m : Machine), restore now bytes = .ok m →
      let size := Snapshot.storedLength bytes
      m.program.size = size ∧ 6626 + size ≤ bytes.length ∧ m.save = bytes.take (6626 + size) := by
  constructor
  · intro m now rest h
    have hread := Snapshot.format_readsBack (s := m.snapshot) h rest
    exact restore_eq_ok_iff.2 ⟨m.snapshot, rest, hread, rfl⟩
  · intro now bytes m h size
    have hlt := program_size_of_restore h
    obtain ⟨s, rest, hread, rfl⟩ := restore_eq_ok_iff.1 h
    have hsave : (s.machine now).save = Snapshot.format.write s := rfl
    have hbytes : bytes = Snapshot.format.write s ++ rest :=
      Snapshot.format_canonical bytes s rest hread
    have hlen := Snapshot.length_write s
    have hsize : size = s.program.size := by
      simp only [size, hbytes]
      exact Snapshot.storedLength_write hlt rest
    refine ⟨hsize.symm, ?_, ?_⟩
    · rw [hsize, hbytes, List.length_append, hlen]
      omega
    · rw [hsave, hsize, hbytes, List.take_left' hlen]

/-- A key is held and latched when the state is saved, and a byte comes after it. -/
theorem save_round_trip_two_bytes :
    let m : Machine := { (fresh 500 .standard 3).press 7 with program := #[0x12, 0x00] }
    let restored : Machine := { m with clock := m.clock.attach 9, keypad := .idle }
    m.program.size < UInt64.size ∧ restore 9 (m.save ++ [0xAA]) = .ok restored ∧
      restored.save = (m.save ++ [0xAA]).take 6628 := by
  intro m restored
  have hsize : m.program.size < UInt64.size := by decide
  have hrestore : restore 9 (m.save ++ [0xAA]) = .ok restored :=
    save_round_trip.1 m 9 [0xAA] hsize
  obtain ⟨hstored, -, hsave⟩ := save_round_trip.2 9 (m.save ++ [0xAA]) restored hrestore
  have htwo : restored.program.size = 2 := rfl
  rw [← hstored, htwo] at hsave
  exact ⟨hsize, hrestore, hsave⟩

end Machine

end ChipEight

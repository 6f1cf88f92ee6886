import Mathlib.Data.Nat.Find
import ChipEight.Proofs.Canonical

/-!
# What is wrong with a saved state

Most of a snapshot may be anything at all. A few numbers in it may only be zero or one: the mode and
the flags, whose places do not depend on what else is there (`Snapshot.checks`). Apart from these
only the length matters, and the bytes tell it themselves. `Format.Reads` says what a format checks
and how many bytes it takes, and that reading reports the first thing that is wrong: the first check
that fails, or else the end of the bytes. The combinators shift the checks of their parts to where
the parts stand, so that the checks of the whole format come out at their offsets, and with them
which bytes are restored and what is said of all others (`Machine.restore_checked`).
-/

namespace ChipEight

namespace Snapshot

/-! ## Checks -/

/-- A number in some bytes that is to be zero or one. -/
structure Check where
  offset : Nat
  width : Nat
  /-- What is said of any other number. -/
  complaint : Nat → Malformed

namespace Check

def flag (offset : Nat) : Check :=
  ⟨offset, 1, fun n => .badFlag (UInt8.ofNat n)⟩

/-- A choice between two alternatives. -/
def choice (offset : Nat) : Check :=
  ⟨offset, 4, fun n => .badChoice (UInt32.ofNat n) 2⟩

/-- The check where `n` bytes come before. -/
def shift (n : Nat) (c : Check) : Check :=
  { c with offset := n + c.offset }

def value (c : Check) (bytes : List UInt8) : Nat :=
  Format.ofLittleEndian ((bytes.drop c.offset).take c.width)

/-- The number is all there, and it is neither zero nor one. -/
structure Fails (c : Check) (bytes : List UInt8) : Prop where
  present : c.offset + c.width ≤ bytes.length
  large : 1 < c.value bytes

@[simp] theorem shift_flag (n offset : Nat) : (flag offset).shift n = flag (n + offset) :=
  rfl

variable (c : Check) (n : Nat) (bytes : List UInt8)

theorem value_shift : (c.shift n).value bytes = c.value (bytes.drop n) := by
  unfold value
  rw [List.drop_drop]
  rfl

theorem value_of_length_le (h : bytes.length ≤ n) : c.value (bytes.drop n) = 0 := by
  unfold value
  rw [List.drop_eq_nil_of_le h, List.drop_nil, List.take_nil]
  rfl

/-- A check further on fails where the check fails on the bytes from there on. -/
theorem fails_shift_iff : (c.shift n).Fails bytes ↔ c.Fails (bytes.drop n) := by
  constructor
  · intro h
    have hpresent : n + c.offset + c.width ≤ bytes.length := h.present
    refine ⟨?_, c.value_shift n bytes ▸ h.large⟩
    rw [List.length_drop]
    omega
  · intro h
    have hpresent := h.present
    rw [List.length_drop] at hpresent
    -- a number that is not there would count as zero
    have hlt : n < bytes.length := by
      refine Nat.lt_of_not_le fun hle => ?_
      have hlarge := h.large
      rw [c.value_of_length_le n bytes hle] at hlarge
      omega
    refine ⟨?_, (c.value_shift n bytes).symm ▸ h.large⟩
    change n + c.offset + c.width ≤ bytes.length
    omega

end Check

/-! ## How formats read -/

namespace Format

variable {α β : Type}

/-- None of the checks fails that are made before an offset. -/
def PassBefore (checks : List Check) (offset : Nat) (bytes : List UInt8) : Prop :=
  ∀ c ∈ checks, c.offset < offset → ¬ c.Fails bytes

def Pass (checks : List Check) (bytes : List UInt8) : Prop :=
  ∀ c ∈ checks, ¬ c.Fails bytes

/-- Reading makes some checks and takes as many bytes as the bytes themselves tell. It reports the
first check that fails, and an end of the bytes only where all checks up to it pass. -/
structure Reads (f : Format α) (checks : List Check) (size : List UInt8 → Nat) : Prop where
  ok : ∀ bytes, Pass checks bytes → size bytes ≤ bytes.length →
    ∃ a, f.read bytes = .ok (a, bytes.drop (size bytes))
  short : ∀ bytes, Pass checks bytes → bytes.length < size bytes →
    f.read bytes = .error .endOfInput
  fails : ∀ bytes, ∀ c ∈ checks, c.Fails bytes → PassBefore checks c.offset bytes →
    f.read bytes = .error (c.complaint (c.value bytes))

/-- Reading always takes `n` bytes, and checks only these. -/
structure ReadsFixed (f : Format α) (checks : List Check) (n : Nat) : Prop
    extends f.Reads checks fun _ => n where
  inside : ∀ c ∈ checks, c.offset < n

theorem Reads.congr {f : Format α} {checks checks' : List Check}
    {size size' : List UInt8 → Nat} (h : f.Reads checks size) (hchecks : checks = checks')
    (hsize : ∀ bytes, size bytes = size' bytes) : f.Reads checks' size' := by
  obtain rfl := hchecks
  obtain rfl : size = size' := funext hsize
  exact h

theorem ReadsFixed.of_read_eq {f g : Format α} {checks : List Check} {n : Nat}
    (h : g.ReadsFixed checks n) (hread : f.read = g.read) : f.ReadsFixed checks n where
  ok := hread ▸ h.ok
  short := hread ▸ h.short
  fails := hread ▸ h.fails
  inside := h.inside

section Pair

variable {f : Format α} {g : Format β} {bytes : List UInt8}

theorem read_pair_of_error {cause : Malformed} (h : f.read bytes = .error cause) :
    (f.pair g).read bytes = .error cause := by
  simp only [Format.pair, bind, Except.bind, h]

theorem read_pair_of_ok {a : α} {rest : List UInt8} (h : f.read bytes = .ok (a, rest)) :
    (f.pair g).read bytes = (g.read rest).map fun p => ((a, p.1), p.2) := by
  simp only [Format.pair, bind, Except.bind, h]
  cases g.read rest <;> rfl

variable {checks checks' : List Check} {n : Nat} {size : List UInt8 → Nat}

theorem pass_nil : Pass [] bytes :=
  fun _ hc => absurd hc List.not_mem_nil

theorem pass_append_iff : Pass (checks ++ checks'.map (.shift n)) bytes ↔
    Pass checks bytes ∧ Pass checks' (bytes.drop n) := by
  simp only [Pass, List.mem_append, or_imp, forall_and, List.forall_mem_map,
    Check.fails_shift_iff]

/-- The checks of the second part are made behind the bytes of the first. -/
theorem Reads.pair (hf : f.ReadsFixed checks n) (hg : g.Reads checks' size) :
    (f.pair g).Reads (checks ++ checks'.map (.shift n)) fun bytes => n + size (bytes.drop n) where
  ok bytes hpass hlen := by
    obtain ⟨hfirst, hsecond⟩ := pass_append_iff.1 hpass
    obtain ⟨a, ha⟩ := hf.ok bytes hfirst (by omega)
    have hrest : size (bytes.drop n) ≤ (bytes.drop n).length := by
      rw [List.length_drop]
      omega
    obtain ⟨b, hb⟩ := hg.ok (bytes.drop n) hsecond hrest
    rw [read_pair_of_ok ha, hb, List.drop_drop]
    exact ⟨(a, b), rfl⟩
  short bytes hpass hlen := by
    obtain ⟨hfirst, hsecond⟩ := pass_append_iff.1 hpass
    by_cases hn : n ≤ bytes.length
    · obtain ⟨a, ha⟩ := hf.ok bytes hfirst hn
      have hrest : (bytes.drop n).length < size (bytes.drop n) := by
        rw [List.length_drop]
        omega
      rw [read_pair_of_ok ha, hg.short _ hsecond hrest]
      rfl
    · exact read_pair_of_error (hf.short bytes hfirst (Nat.not_le.1 hn))
  fails bytes c hc hfails hbefore := by
    rcases List.mem_append.1 hc with hc | hc
    · refine read_pair_of_error (hf.fails bytes c hc hfails ?_)
      intro c' hc'
      exact hbefore c' (List.mem_append_left _ hc')
    · obtain ⟨c, hmem, rfl⟩ := List.exists_of_mem_map hc
      have hfirst : Pass checks bytes := by
        intro c' hc'
        have hinside := hf.inside c' hc'
        exact hbefore c' (List.mem_append_left _ hc') (Nat.lt_add_right _ hinside)
      have hn : n ≤ bytes.length := by
        have hpresent : n + c.offset + c.width ≤ bytes.length := hfails.present
        omega
      obtain ⟨a, ha⟩ := hf.ok bytes hfirst hn
      have hsecond : PassBefore checks' c.offset (bytes.drop n) := by
        intro c' hc' hlt hfails'
        refine hbefore (c'.shift n) (List.mem_append_right _ (List.mem_map_of_mem hc')) ?_ ?_
        · exact Nat.add_lt_add_left hlt n
        · exact (c'.fails_shift_iff n bytes).2 hfails'
      rw [read_pair_of_ok ha, hg.fails _ c hmem ((c.fails_shift_iff n bytes).1 hfails) hsecond,
        c.value_shift]
      rfl

/-- The checks of a pair are those of its first part and, further on, those of its second. -/
theorem ReadsFixed.pair {k : Nat} (hf : f.ReadsFixed checks n) (hg : g.ReadsFixed checks' k) :
    (f.pair g).ReadsFixed (checks ++ checks'.map (.shift n)) (n + k) where
  toReads := Reads.pair hf hg.toReads
  inside c hc := by
    rcases List.mem_append.1 hc with hc | hc
    · exact Nat.lt_add_right k (hf.inside c hc)
    · obtain ⟨c, hmem, rfl⟩ := List.exists_of_mem_map hc
      exact Nat.add_lt_add_left (hg.inside c hmem) n

end Pair

section Iso

variable {f : Format α} {checks : List Check} {wrap : α → β} {unwrap : β → α}

theorem read_iso (f : Format α) (wrap : α → β) (unwrap : β → α) (bytes : List UInt8) :
    (f.iso wrap unwrap).read bytes = (f.read bytes).map fun p => (wrap p.1, p.2) := by
  simp only [Format.iso, bind, Except.bind]
  cases f.read bytes <;> rfl

/-- A value in disguise has the checks of the value that it disguises. -/
theorem Reads.iso {size : List UInt8 → Nat} (h : f.Reads checks size) :
    (f.iso wrap unwrap).Reads checks size where
  ok bytes hpass hlen := by
    obtain ⟨a, ha⟩ := h.ok bytes hpass hlen
    rw [read_iso, ha]
    exact ⟨wrap a, rfl⟩
  short bytes hpass hlen := by
    rw [read_iso, h.short bytes hpass hlen]
    rfl
  fails bytes c hc hfails hbefore := by
    rw [read_iso, h.fails bytes c hc hfails hbefore]
    rfl

theorem ReadsFixed.iso {n : Nat} (h : f.ReadsFixed checks n) :
    (f.iso wrap unwrap).ReadsFixed checks n :=
  ⟨h.toReads.iso, h.inside⟩

end Iso

/-! ## Vectors -/

/-- A vector is read as its front and its last element. -/
theorem read_vector_succ (f : Format α) (k : Nat) :
    (f.vector (k + 1)).read =
      (((f.vector k).pair f).iso (fun p => p.1.push p.2) fun v => (v.pop, v.back)).read := by
  funext bytes
  simp only [Format.vector, Format.pair, Format.iso, readVector, bind, Except.bind, pure,
    Except.pure]
  cases readVector f k bytes with
  | error cause => rfl
  | ok p =>
    obtain ⟨front, rest⟩ := p
    cases hlast : f.read rest with
    | error cause => simp only [hlast]
    | ok q => simp only [hlast]

/-- The checks of `k` parts of `n` bytes each. -/
def eachOf (checks : List Check) (n k : Nat) : List Check :=
  (List.range k).flatMap fun i => checks.map (.shift (i * n))

/-- The checks of a vector are those of each of its entries. -/
theorem ReadsFixed.vector {f : Format α} {checks : List Check} {n : Nat}
    (h : f.ReadsFixed checks n) (k : Nat) :
    (f.vector k).ReadsFixed (eachOf checks n k) (k * n) := by
  induction k with
  | zero =>
    refine ⟨⟨?_, ?_, ?_⟩, ?_⟩
    · intro bytes _ _
      exact ⟨#v[], by rw [Nat.zero_mul]; rfl⟩
    · intro bytes _ hlen
      omega
    · intro bytes c hc
      exact absurd hc List.not_mem_nil
    · intro c hc
      exact absurd hc List.not_mem_nil
  | succ k ih =>
    have heach : eachOf checks n (k + 1) = eachOf checks n k ++ checks.map (.shift (k * n)) := by
      simp only [eachOf, List.range_succ, List.flatMap_append, List.flatMap_singleton]
    rw [heach, Nat.succ_mul]
    exact (ih.pair h).iso.of_read_eq (read_vector_succ f k)

theorem eachOf_flag (k : Nat) : eachOf [.flag 0] 1 k = (List.range k).map .flag := by
  simp only [eachOf, List.map_cons, List.map_nil, Check.shift_flag, Nat.mul_one, Nat.add_zero]
  exact List.map_eq_flatMap.symm

theorem ReadsFixed.vector_of_unchecked {f : Format α} {n : Nat} (h : f.ReadsFixed [] n) (k : Nat) :
    (f.vector k).ReadsFixed [] (k * n) := by
  have hnone : eachOf [] n k = [] := by simp [eachOf]
  exact hnone ▸ h.vector k

/-! ## Numbers, flags and choices -/

theorem natural_reads (width : Nat) : (natural width).ReadsFixed [] width where
  ok _ _ hlen := ⟨_, if_pos hlen⟩
  short _ _ hlen := if_neg (Nat.not_le.2 hlen)
  fails _ _ hc := absurd hc List.not_mem_nil
  inside _ hc := absurd hc List.not_mem_nil

/-- A byte has no checks but that it is there. -/
theorem byte_reads : byte.ReadsFixed [] 1 where
  ok bytes _ hlen := by
    cases bytes with
    | nil => cases hlen
    | cons b rest => exact ⟨b, rfl⟩
  short bytes _ hlen := by
    cases bytes with
    | nil => rfl
    | cons b rest =>
      rw [List.length_cons] at hlen
      omega
  fails _ _ hc := absurd hc List.not_mem_nil
  inside _ hc := absurd hc List.not_mem_nil

/-- A format for a number that lets only zero and one through. -/
theorem ReadsFixed.checked {f : Format α} {wrap : α → Except Malformed β} {unwrap : β → α} {n : Nat}
    {complaint : Nat → Malformed} (number : α → Nat) (hf : f.ReadsFixed [] n) (hpos : 0 < n)
    (hnumber : ∀ bytes a rest, f.read bytes = .ok (a, rest) →
      number a = ofLittleEndian (bytes.take n))
    (hgood : ∀ a, number a ≤ 1 → ∃ b, wrap a = .ok b)
    (hbad : ∀ a, 1 < number a → wrap a = .error (complaint (number a))) :
    (f.refine wrap unwrap).ReadsFixed [⟨0, n, complaint⟩] n := by
  have hread (bytes : List UInt8) (hlen : n ≤ bytes.length) : ∃ a,
      number a = Check.value ⟨0, n, complaint⟩ bytes ∧
        (f.refine wrap unwrap).read bytes = (wrap a).map fun b => (b, bytes.drop n) := by
    obtain ⟨a, ha⟩ := hf.ok bytes pass_nil hlen
    refine ⟨a, hnumber _ _ _ ha, ?_⟩
    simp only [Format.refine, bind, Except.bind, ha, pure, Except.pure]
    cases wrap a <;> rfl
  refine ⟨⟨?_, ?_, ?_⟩, ?_⟩
  · intro bytes hpass hlen
    obtain ⟨a, ha, hrefine⟩ := hread bytes hlen
    have hle : number a ≤ 1 := by
      rw [ha]
      refine Nat.le_of_not_lt fun hlarge => hpass _ List.mem_cons_self ⟨?_, hlarge⟩
      change 0 + n ≤ bytes.length
      omega
    obtain ⟨b, hb⟩ := hgood a hle
    rw [hrefine, hb]
    exact ⟨b, rfl⟩
  · intro bytes _ hlen
    have hshort := hf.short bytes pass_nil hlen
    simp only [Format.refine, bind, Except.bind, hshort]
  · intro bytes c hc hfails _
    obtain rfl := List.mem_singleton.1 hc
    have hlen : n ≤ bytes.length := by
      have hpresent : 0 + n ≤ bytes.length := hfails.present
      omega
    obtain ⟨a, ha, hrefine⟩ := hread bytes hlen
    rw [hrefine, hbad a (ha ▸ hfails.large), ha]
    rfl
  · intro c hc
    obtain rfl := List.mem_singleton.1 hc
    exact hpos

/-- A number that stands for one of two values. -/
theorem ReadsFixed.choice {ν : Type} [DecidableEq ν] {f : Format ν} {zero one : ν} {a b : β}
    {cause : ν → Malformed} {unwrap : β → ν} {n : Nat} {complaint : Nat → Malformed}
    (number : ν → Nat) (hf : f.ReadsFixed [] n) (hpos : 0 < n)
    (hnumber : ∀ bytes w rest, f.read bytes = .ok (w, rest) →
      number w = ofLittleEndian (bytes.take n))
    (hzero : ∀ w, number w = 0 ↔ w = zero) (hone : ∀ w, number w = 1 ↔ w = one)
    (hcause : ∀ w, complaint (number w) = cause w) :
    (f.refine (fun w => if w = zero then .ok a else if w = one then .ok b else .error (cause w))
      unwrap).ReadsFixed [⟨0, n, complaint⟩] n := by
  refine hf.checked number hpos hnumber ?_ ?_
  · intro w hle
    by_cases hz : w = zero
    · exact ⟨a, if_pos hz⟩
    · have hne : number w ≠ 0 := mt (hzero w).1 hz
      have ho : w = one := (hone w).1 (by omega)
      exact ⟨b, (if_neg hz).trans (if_pos ho)⟩
  · intro w hlarge
    have hz : w ≠ zero := mt (hzero w).2 (by omega)
    have ho : w ≠ one := mt (hone w).2 (by omega)
    rw [if_neg hz, if_neg ho, hcause]

theorem byte_number {bytes rest : List UInt8} {b : UInt8} (h : byte.read bytes = .ok (b, rest)) :
    b.toNat = ofLittleEndian (bytes.take 1) := by
  cases bytes with
  | nil => cases h
  | cons first bytes =>
    cases h
    rfl

theorem flag_reads : Format.flag.ReadsFixed [.flag 0] 1 :=
  byte_reads.choice UInt8.toNat Nat.one_pos (fun _ _ _ h => byte_number h)
    (fun _ => UInt8.toNat_inj (b := 0)) (fun _ => UInt8.toNat_inj (b := 1))
    fun _ => congrArg Malformed.badFlag UInt8.ofNat_toNat

theorem word32_number {bytes rest : List UInt8} {w : UInt32}
    (h : word32.read bytes = .ok (w, rest)) : w.toNat = ofLittleEndian (bytes.take 4) := by
  obtain ⟨n, hn, rfl⟩ := read_iso_eq_ok_iff.1 h
  have hlow : (UInt32.ofNat n).toNat = n := UInt32.toNat_ofNat_of_lt (natural_lt hn)
  exact hlow.trans (read_natural_eq_ok_iff.1 hn).2.1

/-- The bytes of a program come after their number, which may be any number of eight bytes. -/
theorem bytes_reads :
    Format.bytes.Reads [] fun bytes => 8 + ofLittleEndian (bytes.take 8) := by
  have hsize (bytes : List UInt8) (hlen : 8 ≤ bytes.length) : ∃ size,
      word64.read bytes = .ok (size, bytes.drop 8) ∧
        size.toNat = ofLittleEndian (bytes.take 8) := by
    have hread : (natural 8).read bytes = .ok (_, bytes.drop 8) := if_pos hlen
    refine ⟨_, read_iso_eq_ok_iff.2 ⟨_, hread, rfl⟩, ?_⟩
    exact UInt64.toNat_ofNat_of_lt (natural_lt hread)
  refine ⟨?_, ?_, ?_⟩
  · intro bytes _ hlen
    obtain ⟨size, hread, hnumber⟩ := hsize bytes (by omega)
    have hle : size.toNat ≤ (bytes.drop 8).length := by
      rw [List.length_drop]
      omega
    refine ⟨_, read_bytes_eq_ok_iff.2 ⟨size, bytes.drop 8, hread, hle, rfl, ?_⟩⟩
    rw [List.drop_drop, hnumber]
  · intro bytes _ hlen
    by_cases h8 : 8 ≤ bytes.length
    · obtain ⟨size, hread, hnumber⟩ := hsize bytes h8
      have hlt : ¬ size.toNat ≤ (bytes.drop 8).length := by
        rw [List.length_drop]
        omega
      simp only [Format.bytes, bind, Except.bind, hread, if_neg hlt]
      rfl
    · have hread : word64.read bytes = .error .endOfInput := by
        rw [word64, read_iso, (natural_reads 8).short bytes pass_nil
          (Nat.not_le.1 h8)]
        rfl
      simp only [Format.bytes, bind, Except.bind, hread]
  · intro bytes c hc
    exact absurd hc List.not_mem_nil

end Format

/-! ## Snapshots -/

open Format

theorem modeFormat_reads : modeFormat.ReadsFixed [.choice 0] 4 := by
  have hword : word32.ReadsFixed [] 4 := (natural_reads 4).iso
  exact hword.choice UInt32.toNat (by decide) (fun _ _ _ h => word32_number h)
    (fun _ => UInt32.toNat_inj (b := 0)) (fun _ => UInt32.toNat_inj (b := 1))
    fun _ => congrArg (Malformed.badChoice · 2) UInt32.ofNat_toNat

/-- Of the registers the mode and the two switches of the dialect are checked. -/
theorem registersFormat_reads :
    registersFormat.ReadsFixed [.choice 162, .flag 166, .flag 167] 178 := by
  have hdialect : dialectFormat.ReadsFixed [.flag 0, .flag 1] 2 := (flag_reads.pair flag_reads).iso
  have hword16 : word16.ReadsFixed [] 2 := (natural_reads 2).iso
  have hword64 : word64.ReadsFixed [] 8 := (natural_reads 8).iso
  exact ((byte_reads.vector_of_unchecked 16).pair <| hword16.pair <| hword64.pair <|
    hword64.pair <| (hword64.vector_of_unchecked 16).pair <| modeFormat_reads.pair <|
    hdialect.pair <| hword16.pair hword64).iso

theorem gridFormat_reads : gridFormat.ReadsFixed ((List.range 2048).map .flag) 2048 := by
  rw [← eachOf_flag]
  exact (flag_reads.vector 2048).iso

/-- All that is checked in a snapshot: the mode, the two flags of the dialect, the pixels, and
whether the packed frame is out of date. -/
def checks : List Check :=
  [.choice 162, .flag 166, .flag 167] ++ (List.range 2048).map (fun k => .flag (216 + k)) ++
    [.flag 2521]

/-- A snapshot has its checks, and is as long as the length that it stores for its program says. -/
theorem format_reads : format.Reads checks fun bytes => 6626 + storedLength bytes := by
  have hword32 : word32.ReadsFixed [] 4 := (natural_reads 4).iso
  have hword128 : word128.ReadsFixed [] 16 := (natural_reads 16).iso
  have hmemory : memoryFormat.ReadsFixed [] 4096 := (byte_reads.vector_of_unchecked 4096).iso
  have hpacked : (Format.byte.vector 257).ReadsFixed [] 257 := byte_reads.vector_of_unchecked 257
  have hall := Reads.pair registersFormat_reads <| .pair byte_reads <| .pair byte_reads <|
    .pair hword32 <| .pair hword128 <| .pair hword128 <| .pair gridFormat_reads <|
    .pair hpacked <| .pair flag_reads <| .pair hmemory bytes_reads
  refine Reads.congr (Reads.iso hall) ?_ ?_
  · simp only [checks, List.nil_append, List.append_nil, List.map_nil, List.map_append,
      List.map_cons, List.map_map, List.cons_append, Check.shift_flag, Function.comp_def,
      Nat.add_zero, Nat.reduceAdd, ← Nat.add_assoc]
  · intro bytes
    simp only [storedLength, List.drop_drop, Nat.reduceAdd, ← Nat.add_assoc]

/-- The snapshot ends with its program, and all that is checked comes before the number that tells
how long it is. -/
theorem Check.inside {c : Check} (h : c ∈ checks) :
    162 ≤ c.offset ∧ c.offset + c.width ≤ 6626 := by
  simp only [checks, List.mem_append, List.mem_cons, List.not_mem_nil, or_false, List.mem_map,
    List.mem_range] at h
  obtain ((rfl | rfl | rfl) | ⟨k, hk, rfl⟩) | rfl := h
  · decide
  · decide
  · decide
  · change 162 ≤ 216 + k ∧ 216 + k + 1 ≤ 6626
    omega
  · decide

/-- Of the checks that do not pass there is a first one. -/
theorem exists_first_of_not_pass {bytes : List UInt8} (h : ¬ Pass checks bytes) :
    ∃ c ∈ checks, c.Fails bytes ∧ PassBefore checks c.offset bytes := by
  classical
  have hsome : ∃ offset, ∃ c ∈ checks, c.Fails bytes ∧ c.offset = offset := by
    simp only [Pass, not_forall, not_not] at h
    obtain ⟨c, hc, hfails⟩ := h
    exact ⟨c.offset, c, hc, hfails, rfl⟩
  obtain ⟨c, hc, hfails, hoffset⟩ := Nat.find_spec hsome
  refine ⟨c, hc, hfails, ?_⟩
  intro c' hc' hlt hfails'
  exact Nat.find_min hsome (hoffset ▸ hlt) ⟨c', hc', hfails', rfl⟩

/-- The first thing that is wrong with some bytes: a check that fails while all before it pass, or
that the bytes end too early although all checks pass that can be made. -/
inductive FirstProblem (bytes : List UInt8) : Malformed → Prop where
  | failed {c : Check} (hc : c ∈ checks) (hfails : c.Fails bytes)
      (hbefore : PassBefore checks c.offset bytes) :
    FirstProblem bytes (c.complaint (c.value bytes))
  | cutShort (hpass : Pass checks bytes) (hlen : bytes.length < 6626 + storedLength bytes) :
    FirstProblem bytes .endOfInput

theorem FirstProblem.read {bytes : List UInt8} {cause : Malformed} (h : FirstProblem bytes cause) :
    format.read bytes = .error cause := by
  cases h with
  | failed hc hfails hbefore => exact format_reads.fails bytes _ hc hfails hbefore
  | cutShort hpass hlen => exact format_reads.short bytes hpass hlen

/-- Either there is something wrong with some bytes or they are read. -/
theorem firstProblem_or_read (bytes : List UInt8) :
    (∃ cause, FirstProblem bytes cause) ∨
      (Pass checks bytes ∧ 6626 + storedLength bytes ≤ bytes.length ∧
        ∃ p, format.read bytes = .ok p) := by
  by_cases hpass : Pass checks bytes
  · by_cases hlen : 6626 + storedLength bytes ≤ bytes.length
    · obtain ⟨s, hs⟩ := format_reads.ok bytes hpass hlen
      exact .inr ⟨hpass, hlen, _, hs⟩
    · exact .inl ⟨_, .cutShort hpass (Nat.not_le.1 hlen)⟩
  · obtain ⟨c, hc, hfails, hbefore⟩ := exists_first_of_not_pass hpass
    exact .inl ⟨_, .failed hc hfails hbefore⟩

/-- Reading fails with the first problem, in the order of the offsets. -/
theorem read_eq_error_iff {bytes : List UInt8} {cause : Malformed} :
    format.read bytes = .error cause ↔ FirstProblem bytes cause := by
  constructor
  · intro h
    obtain ⟨cause', hfirst⟩ | ⟨_, _, p, hp⟩ := firstProblem_or_read bytes
    · rw [hfirst.read] at h
      cases h
      exact hfirst
    · rw [hp] at h
      cases h
  · exact FirstProblem.read

/-- Bytes can be read if all flags and choices hold a 0 or a 1 and nothing is missing at the end. -/
theorem exists_read_iff {bytes : List UInt8} :
    (∃ p, format.read bytes = .ok p) ↔
      (∀ c ∈ checks, c.value bytes ≤ 1) ∧ 6626 ≤ bytes.length ∧
        6626 + storedLength bytes ≤ bytes.length := by
  constructor
  · rintro ⟨p, hp⟩
    obtain ⟨cause, hfirst⟩ | ⟨hpass, hlen, _⟩ := firstProblem_or_read bytes
    · rw [hfirst.read] at hp
      cases hp
    · refine ⟨?_, by omega, hlen⟩
      intro c hc
      refine Nat.le_of_not_lt fun hlarge => hpass c hc ⟨?_, hlarge⟩
      have hinside := (Check.inside hc).2
      omega
  · rintro ⟨hvalues, _, hlen⟩
    have hpass : Pass checks bytes := by
      intro c hc hfails
      exact absurd hfails.large (Nat.not_lt.2 (hvalues c hc))
    obtain ⟨s, hs⟩ := format_reads.ok bytes hpass hlen
    exact ⟨_, hs⟩

/-- What stands behind a snapshot has no part in it. -/
theorem read_take_append {bytes rest : List UInt8} {s : Snapshot}
    (h : format.read bytes = .ok (s, rest)) (rest' : List UInt8) :
    format.read (bytes.take (6626 + storedLength bytes) ++ rest') = .ok (s, rest') := by
  have hlt := program_size_of_read h
  have hbytes : bytes = format.write s ++ rest := format_canonical bytes s rest h
  have hsize : storedLength bytes = s.program.size := by
    rw [hbytes]
    exact storedLength_write hlt rest
  have hfront : bytes.take (6626 + storedLength bytes) = format.write s := by
    rw [hsize, hbytes, List.take_left' (length_write s)]
  rw [hfront]
  exact format_readsBack hlt rest'

end Snapshot

namespace Machine

open Snapshot

theorem restore_eq (now : Reading) (bytes : List UInt8) :
    restore now bytes = (format.read bytes).map fun p => p.1.machine now := by
  simp only [restore, bind, Except.bind]
  cases format.read bytes <;> rfl

/-- **Which bytes are restored.** A saved state is accepted exactly if its mode and its flags are
zero or one and it is as long as it says, be the number for that as large as it may; what comes
after does not matter. Otherwise the first thing that is wrong is reported: the first of these
numbers that is there and is neither zero nor one, or the early end of the bytes if there is none. -/
theorem restore_checked (now : Reading) (bytes : List UInt8) :
    let size := 6626 + storedLength bytes
    ((∃ m, restore now bytes = .ok m) ↔
      (∀ c ∈ checks, c.value bytes ≤ 1) ∧ 6626 ≤ bytes.length ∧ size ≤ bytes.length) ∧
    (∀ m rest, restore now bytes = .ok m → restore now (bytes.take size ++ rest) = .ok m) ∧
    ∀ cause, restore now bytes = .error cause ↔ FirstProblem bytes cause := by
  intro size
  refine ⟨?_, ?_, ?_⟩
  · rw [← exists_read_iff, restore_eq]
    constructor
    · rintro ⟨m, h⟩
      cases hread : format.read bytes with
      | error cause =>
        rw [hread] at h
        cases h
      | ok p => exact ⟨p, rfl⟩
    · rintro ⟨p, hp⟩
      rw [hp]
      exact ⟨_, rfl⟩
  · intro m rest h
    obtain ⟨s, rest', hread, rfl⟩ := restore_eq_ok_iff.1 h
    exact restore_eq_ok_iff.2 ⟨s, rest, read_take_append hread rest, rfl⟩
  · intro cause
    rw [← read_eq_error_iff, restore_eq]
    cases format.read bytes with
    | error cause' => simp [Except.map]
    | ok p => simp [Except.map]

/-- The mode is wrong, and so is the flag behind it, where the bytes end. -/
theorem restore_checked_cut :
    let m := fresh 500 .standard 3
    let bytes : List UInt8 := List.replicate 162 0 ++ [2, 0, 0, 0, 7]
    restore 9 (m.save ++ [0xAA]) = .ok (m.snapshot.machine 9) ∧
      restore 9 ((m.save ++ [0xAA]).take (6626 + storedLength (m.save ++ [0xAA])) ++ [1, 2]) =
        .ok (m.snapshot.machine 9) ∧
      FirstProblem bytes (.badChoice 2 2) ∧ restore 9 bytes = .error (.badChoice 2 2) := by
  intro m bytes
  have hread : format.read (m.save ++ [0xAA]) = .ok (m.snapshot, [0xAA]) :=
    format_readsBack (by decide) [0xAA]
  have hrestore : restore 9 (m.save ++ [0xAA]) = .ok (m.snapshot.machine 9) :=
    restore_eq_ok_iff.2 ⟨_, _, hread, rfl⟩
  have hfirst : FirstProblem bytes (.badChoice 2 2) := by
    refine .failed (c := .choice 162) ?_ ⟨?_, ?_⟩ ?_
    · exact List.mem_append_left _ (List.mem_append_left _ List.mem_cons_self)
    · change 166 ≤ bytes.length
      rw [List.length_append, List.length_replicate]
      decide
    · have hdrop : bytes.drop 162 = [2, 0, 0, 0, 7] := List.drop_left' List.length_replicate
      change 1 < Format.ofLittleEndian ((bytes.drop 162).take 4)
      rw [hdrop]
      decide
    · intro c hc hlt
      exact absurd hlt (Nat.not_lt.2 (Check.inside hc).1)
  exact ⟨hrestore, (restore_checked 9 _).2.1 _ [1, 2] hrestore, hfirst,
    ((restore_checked 9 bytes).2.2 _).2 hfirst⟩

end Machine
end ChipEight

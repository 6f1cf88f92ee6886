import ChipEight.Command.Simulation
import ChipEight.Proofs.Publication

/-!
# Streams of frames

Frames are written as they are, one behind the other, and whoever reads them tells their kinds
apart by the first byte. That is enough: bytes that are a stream of marked frames are so in one way
only (`Frame.stream_inj`). A recorder keeps account of an output to which frames are written whole,
each with a flush (`Recorder.output_publishAll`), and what a session has written are the bytes of
its frames, back to back (`Rig.Reachable.written`). In a simulated world the standard output and
files take frames in the same way.
-/

namespace ChipEight

namespace Frame

/-! ## Frames one behind the other -/

/-- The bytes of frames, back to back. -/
def stream (frames : List Frame) : List UInt8 :=
  frames.flatMap (·.bytes.toList)

theorem stream_cons (frame : Frame) (frames : List Frame) :
    stream (frame :: frames) = frame.bytes.toList ++ stream frames :=
  List.flatMap_cons

/-- The byte that marks frames of this kind. -/
def mark : Frame → UInt8
  | display _ => Screen.displayMark
  | debug _ => 0xFF

/-- How many bytes frames of this kind have. -/
def size : Frame → Nat
  | display _ => 257
  | debug _ => 4097

/-- The frame begins with the mark of its kind. -/
def IsMarked (frame : Frame) : Prop :=
  frame.bytes.toList.head? = some frame.mark

theorem isMarked_display_iff {bytes : Vector UInt8 257} :
    (display bytes).IsMarked ↔ bytes[0]? = some Screen.displayMark := by
  have hfirst : (display bytes).bytes[0]? = bytes[0]? := Vector.getElem?_toArray
  rw [IsMarked, List.head?_eq_getElem?, Array.getElem?_toList, hfirst]
  rfl

theorem isMarked_debug_iff {bytes : Vector UInt8 4097} :
    (debug bytes).IsMarked ↔ bytes[0]? = some 0xFF := by
  have hfirst : (debug bytes).bytes[0]? = bytes[0]? := Vector.getElem?_toArray
  rw [IsMarked, List.head?_eq_getElem?, Array.getElem?_toList, hfirst]
  rfl

theorem length_bytes (frame : Frame) : frame.bytes.toList.length = frame.size := by
  cases frame with
  | display bytes => exact bytes.size_toArray
  | debug bytes => exact bytes.size_toArray

/-- Frames of one kind are the same if their bytes are. -/
theorem bytes_inj {f g : Frame} (hmark : f.mark = g.mark)
    (h : f.bytes.toList = g.bytes.toList) : f = g := by
  cases f with
  | display bytes =>
    cases g with
    | display bytes' => exact congrArg display (Vector.toArray_inj.1 (Array.toList_inj.1 h))
    | debug bytes' => cases hmark
  | debug bytes =>
    cases g with
    | display bytes' => cases hmark
    | debug bytes' => exact congrArg debug (Vector.toArray_inj.1 (Array.toList_inj.1 h))

theorem size_eq_of_mark_eq {f g : Frame} (h : f.mark = g.mark) : f.size = g.size := by
  cases f <;> cases g <;> first | rfl | cases h

/-- A marked frame can be told from what is behind it. -/
theorem eq_of_append {f g : Frame} (hf : f.IsMarked) (hg : g.IsMarked) {more more' : List UInt8}
    (h : f.bytes.toList ++ more = g.bytes.toList ++ more') : f = g ∧ more = more' := by
  have hmark : f.mark = g.mark := by
    have hheads := congrArg List.head? h
    rw [List.head?_append, List.head?_append, hf, hg] at hheads
    exact Option.some.inj hheads
  have hsize : f.bytes.toList.length = g.bytes.toList.length := by
    rw [length_bytes, length_bytes, size_eq_of_mark_eq hmark]
  rcases List.append_inj h hsize with ⟨hbytes, hmore⟩
  exact ⟨bytes_inj hmark hbytes, hmore⟩

/-- Only no frames at all have no bytes. -/
theorem stream_eq_nil_iff {frames : List Frame} : stream frames = [] ↔ frames = [] := by
  cases frames with
  | nil => exact iff_of_true rfl rfl
  | cons frame frames =>
    refine iff_of_false (fun h => ?_) (List.cons_ne_nil frame frames)
    rw [stream_cons] at h
    have hlength : frame.size = 0 := by
      rw [← length_bytes, (List.append_eq_nil_iff.1 h).1]
      rfl
    cases frame <;> cases hlength

/-- A stream of marked frames can be cut into marked frames in one way only. -/
theorem stream_inj {frames frames' : List Frame} (h : ∀ f ∈ frames, f.IsMarked)
    (h' : ∀ f ∈ frames', f.IsMarked) (heq : stream frames = stream frames') :
    frames = frames' := by
  induction frames generalizing frames' with
  | nil => exact (stream_eq_nil_iff.1 heq.symm).symm
  | cons f frames ih =>
    cases frames' with
    | nil => exact stream_eq_nil_iff.1 heq
    | cons g frames' =>
      rw [stream_cons, stream_cons] at heq
      have hf := h f List.mem_cons_self
      have hg := h' g List.mem_cons_self
      rcases eq_of_append hf hg heq with ⟨rfl, hrest⟩
      have htail := ih (fun x hx => h x (List.mem_cons_of_mem _ hx))
        (fun x hx => h' x (List.mem_cons_of_mem _ hx)) hrest
      rw [htail]

end Frame

/-- The frames of a machine are marked. -/
theorem Machine.isMarked_of_mem_frames {m : Machine} {f : Frame} (h : f ∈ m.frames) :
    f.IsMarked := by
  have hshown := m.isShownBy_frames
  rcases List.mem_cons.1 h with hdisplay | hdebug
  · rw [hdisplay, Frame.isMarked_display_iff, hshown.display.mark]
  · rw [List.mem_singleton.1 hdebug, Frame.isMarked_debug_iff]
    exact Vector.getElem?_eq_some_iff.2 ⟨Nat.zero_lt_succ _, hshown.mark⟩

/-- The frames of rounds are marked. -/
theorem Rig.isMarked_of_mem_framesBy {r : Rig} {deltas : List Nat} {k : Nat} {f : Frame}
    (h : f ∈ r.framesBy deltas k) : f.IsMarked := by
  unfold framesBy at h
  rcases List.mem_flatMap.1 h with ⟨i, -, hf⟩
  split at hf
  · exact Machine.isMarked_of_mem_frames hf
  · cases hf

/-! ## Outputs -/

/-- An output of bytes: what has been written to it, and how much of that has been flushed. -/
structure Output where
  bytes : List UInt8
  flushed : Nat

namespace Output

def empty : Output where
  bytes := []
  flushed := 0

def write (o : Output) (bytes : Array UInt8) : Output :=
  { o with bytes := o.bytes ++ bytes.toList }

def flush (o : Output) : Output :=
  { o with flushed := o.bytes.length }

/-- Writes a frame whole and flushes. -/
def publish (o : Output) (frame : Frame) : Output :=
  (o.write frame.bytes).flush

/-- Published frames come behind what was written before, back to back. -/
theorem bytes_foldl_publish (frames : List Frame) (o : Output) :
    (frames.foldl publish o).bytes = o.bytes ++ Frame.stream frames := by
  induction frames generalizing o with
  | nil => exact (List.append_nil _).symm
  | cons frame frames ih =>
    rw [List.foldl_cons, ih, Frame.stream_cons, ← List.append_assoc]
    rfl

/-- Whatever frames are published, nothing is left to be flushed. -/
theorem flushed_foldl_publish (frames : List Frame) {o : Output} (h : o.flushed = o.bytes.length) :
    (frames.foldl publish o).flushed = (frames.foldl publish o).bytes.length := by
  induction frames generalizing o with
  | nil => exact h
  | cons frame frames ih => exact ih (o := o.publish frame) rfl

end Output

namespace Recorder

/-- The output of which a recorder keeps account. -/
def output (rec : Recorder) : Output :=
  rec.frames.toList.foldl Output.publish .empty

/-- The bytes of the output are those of the frames that the recorder keeps. -/
theorem bytes_output (rec : Recorder) : rec.output.bytes = Frame.stream rec.frames.toList :=
  Output.bytes_foldl_publish ..

/-- All of the output has been flushed. -/
theorem flushed_output (rec : Recorder) : rec.output.flushed = rec.output.bytes.length :=
  Output.flushed_foldl_publish _ rfl

/-- A frame that a recorder keeps is written to its output and flushed. -/
theorem output_publish {rec rec' : Recorder} {frame : Frame} (hkeeps : rec.keeps = true)
    (h : rec.publish frame = some rec') :
    rec'.keeps = true ∧ rec'.flushes = rec.flushes + 1 ∧
      rec'.output = rec.output.publish frame := by
  unfold Recorder.publish at h
  rw [hkeeps] at h
  split at h
  · next hnot => cases hnot
  · split at h
    · cases h
    · cases h
      refine ⟨rfl, rfl, ?_⟩
      unfold output
      rw [Array.toList_push, List.foldl_append]
      rfl

/-- Frames are written to the output of a recorder one by one, all of them or those before the first
that cannot be written. -/
theorem output_publishAll (frames : List Frame) {rec : Recorder} (hkeeps : rec.keeps = true) :
    ∃ written, written <+: frames ∧
      (rec.publishAll frames).1.output = written.foldl Output.publish rec.output ∧
      ((rec.publishAll frames).2 = true → written = frames) := by
  induction frames generalizing rec with
  | nil => exact ⟨[], List.prefix_rfl, rfl, fun _ => rfl⟩
  | cons frame frames ih =>
    unfold publishAll
    cases hpublish : rec.publish frame with
    | none => exact ⟨[], List.nil_prefix, rfl, Bool.noConfusion⟩
    | some rec' =>
      rcases output_publish hkeeps hpublish with ⟨hkeeps', -, houtput⟩
      rcases ih hkeeps' with ⟨written, hprefix, hwritten, hall⟩
      refine ⟨frame :: written, List.cons_prefix_cons.2 ⟨rfl, hprefix⟩, ?_, fun h => ?_⟩
      · rw [List.foldl_cons, ← houtput]
        exact hwritten
      · rw [hall h]

end Recorder

/-! ## Sessions -/

namespace Rig

/-- What a session has published that has come to its end after `j` rounds. -/
def published (r : Rig) (deltas : List Nat) (failAt j : Nat) (ending : Ending) : List Frame :=
  if ending = .sinkFailed then (r.framesBy deltas j).take (failAt - 1) else r.framesBy deltas j

theorem Ends.frames_eq {r : Rig} {deltas : List Nat} {maxSteps : UInt64} {failAt j : Nat}
    {frames : List Frame} {ending : Ending} (h : r.Ends deltas maxSteps failAt j frames ending) :
    frames = r.published deltas failAt j ending := by
  cases h <;> rfl

/-- What a session publishes is marked. -/
theorem isMarked_of_mem_published {r : Rig} {deltas : List Nat} {failAt j : Nat} {ending : Ending}
    {f : Frame} (h : f ∈ r.published deltas failAt j ending) : f.IsMarked := by
  unfold published at h
  split at h
  · exact isMarked_of_mem_framesBy (List.mem_of_mem_take h)
  · exact isMarked_of_mem_framesBy h

/-- **Written bytes.** What a session has written when it ends are the bytes of the frames of its
rounds, back to back and all flushed. If a frame could not be written they end before it. The bytes
are those of no other marked frames. -/
theorem Reachable.written {r : Rig} (h : r.Reachable) (hcur : r.Current) {deltas : List Nat}
    (hT : r.now.toNat + deltas.sum < UInt64.size) (maxSteps : UInt64) (failAt : Nat) :
    let outcome := (r.session maxSteps (.empty true failAt)).run deltas
    let output := outcome.1.recorder.output
    ∃ j ≤ deltas.length, r.Concludes deltas maxSteps failAt j outcome ∧
      output.bytes = Frame.stream (r.published deltas failAt j outcome.2) ∧
      output.flushed = output.bytes.length ∧
      ∀ frames, (∀ f ∈ frames, f.IsMarked) → Frame.stream frames = output.bytes →
        frames = r.published deltas failAt j outcome.2 := by
  intro outcome output
  rcases h.concludes hcur hT maxSteps failAt with ⟨j, hj, hconcludes⟩
  have hbytes : output.bytes = Frame.stream (r.published deltas failAt j outcome.2) :=
    (Recorder.bytes_output _).trans (congrArg Frame.stream hconcludes.ends.frames_eq)
  refine ⟨j, hj, hconcludes, hbytes, Recorder.flushed_output _, ?_⟩
  intro frames hmarked heq
  exact Frame.stream_inj hmarked (fun f hf => isMarked_of_mem_published hf) (heq.trans hbytes)

end Rig

/-! ## Simulated worlds -/

namespace Command

/-- Bytes that are pushed one by one come behind those that are there. -/
theorem toList_foldl_push (piece : Array UInt8) (acc : ByteArray) :
    (piece.foldl ByteArray.push acc).data.toList = acc.data.toList ++ piece.toList := by
  rw [← Array.foldl_toList]
  generalize piece.toList = bytes
  induction bytes generalizing acc with
  | nil => exact (List.append_nil _).symm
  | cons b bytes ih =>
    rw [List.foldl_cons, ih, List.append_cons, ByteArray.data_push, Array.toList_push]

/-- A piece that is written comes behind what is there. -/
theorem Contents.toList_bytes_append (c : Contents) (bytes : Array UInt8) :
    (c.append bytes).bytes.data.toList = c.bytes.data.toList ++ bytes.toList := by
  unfold append Contents.bytes
  rw [List.reverse_cons, List.foldl_append, List.foldl_cons, List.foldl_nil, toList_foldl_push]

/-- A file to which bytes have been written is still one, with the bytes behind what it held. -/
theorem Tree.node?_append {t : Tree} {l : Location} {c : Contents}
    (h : t.node? l = some (.file c)) (bytes : Array UInt8) :
    (t.append l bytes).node? l = some (.file (c.append bytes)) := by
  unfold node? at h
  split at h
  · cases h
  · next hplace =>
    split at h
    · cases h
    · next hdevice =>
      obtain ⟨c', hfile, hc⟩ := Option.map_eq_some_iff.1 h
      cases hc
      have hput : (t.append l bytes).files.lookup l = some (c.append bytes) := by
        unfold append put file?
        rw [hfile, List.lookup_cons_self]
        rfl
      have hlayout : (t.append l bytes).layout = t.layout := rfl
      unfold node?
      rw [hlayout, if_neg hplace, hdevice, hput]
      rfl

namespace Simulation

/-- The standard output takes the bytes of frames, back to back. -/
theorem run_publishAll_printFrame (frames : List Frame) (s : Simulation) :
    ∃ s', (publishAll printFrame frames).run s = (.ok (), s') ∧
      s'.standardOutput.bytes.data.toList =
        s.standardOutput.bytes.data.toList ++ Frame.stream frames := by
  induction frames generalizing s with
  | nil => exact ⟨s, rfl, (List.append_nil _).symm⟩
  | cons frame frames ih =>
    rcases ih (s.print frame.bytes) with ⟨s', hrun, hbytes⟩
    refine ⟨s', hrun, hbytes.trans ?_⟩
    rw [Frame.stream_cons, ← List.append_assoc]
    exact congrArg (· ++ _) (Contents.toList_bytes_append ..)

/-- Writing to a file changes that file and cannot fail. -/
theorem run_write_of_file {l : Location} {s : Simulation} {c : Contents}
    (h : s.tree.node? l = some (.file c)) (bytes : Array UInt8) :
    (write l bytes).run s = (.ok (), { s with tree := s.tree.append l bytes }) := by
  have hget : (get : StateM Simulation Simulation).run s = (s, s) := rfl
  unfold write
  rw [StateT.run_bind, hget]
  dsimp only [bind]
  rw [h]
  rfl

/-- A file takes the bytes of frames, back to back. -/
theorem run_publishAll_writeFrame (frames : List Frame) {l : Location} {s : Simulation}
    {c : Contents} (h : s.tree.node? l = some (.file c)) :
    ∃ s' c', (publishAll (writeFrame l) frames).run s = (.ok (), s') ∧
      s'.tree.node? l = some (.file c') ∧
      c'.bytes.data.toList = c.bytes.data.toList ++ Frame.stream frames := by
  induction frames generalizing s c with
  | nil => exact ⟨s, c, rfl, h, (List.append_nil _).symm⟩
  | cons frame frames ih =>
    have hfirst : (writeFrame l frame).run s = _ := run_write_of_file h frame.bytes
    rcases ih (s := { s with tree := s.tree.append l frame.bytes })
      (Tree.node?_append h frame.bytes) with ⟨s', c', hrun, hnode, hbytes⟩
    refine ⟨s', c', ?_, hnode, hbytes.trans ?_⟩
    · unfold publishAll
      rw [StateT.run_bind, hfirst]
      exact hrun
    · rw [Frame.stream_cons, ← List.append_assoc, Contents.toList_bytes_append]

end Simulation
end Command
end ChipEight

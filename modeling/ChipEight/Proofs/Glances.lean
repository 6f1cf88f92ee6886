import Mathlib.Data.List.Forall2
import ChipEight.Proofs.SameButPacking

/-!
# Glances

While a host works with a rig, others may look at it: take frames, ask which keys are held, have the
state saved. Of all this only taking a display frame leaves a trace in the machine, where the screen
is packed and no longer marked as changed. The trace cannot be seen: with or without glances in
between, the host gets the same answers and reports, and the rigs differ in nothing but the packing
(`Rig.Reachable.glances_unseen`).
-/

namespace ChipEight

/-- What is asked of a rig just to look at it. -/
inductive Glance where
  | displayFrame
  | debugFrame
  | isHeld (code : UInt8)
  | save

def Glance.request : Glance → Request
  | displayFrame => .displayFrame
  | debugFrame => .debugFrame
  | isHeld code => .isHeld code
  | save => .save

/-- A request of the host, or a glance that is taken between two of them. -/
inductive Visit where
  | ask (q : Request)
  | glance (g : Glance)

def Visit.asked? : Visit → Option Request
  | ask q => some q
  | glance _ => none

/-- The same reply and the same reports. The rigs differ at most in what is packed of their screens,
in whether it is out of date and in how often it was packed. -/
structure Response.SameButPacking (a a' : Response) : Prop where
  reply : a'.reply = a.reply
  events : a'.events = a.events
  rig : a'.rig = a.rig.withMachine { a.rig.machine with
    screen := { a.rig.machine.screen with
      packed := a'.rig.machine.screen.packed
      dirty := a'.rig.machine.screen.dirty
      packCount := a'.rig.machine.screen.packCount } }

namespace Rig

/-- The responses that the host gets if others take glances in between. -/
def responsesAmid (r : Rig) : List Visit → List Response
  | [] => []
  | .ask q :: visits => r.apply q :: (r.apply q).rig.responsesAmid visits
  | .glance g :: visits => (r.apply g.request).rig.responsesAmid visits

namespace Alike

variable {r r' : Rig} (h : r.Alike Machine.SameButPacking 0 r')

include h

theorem withMachine_eq : r' = r.withMachine r'.machine :=
  calc r' = ⟨r'.machine, r'.now, r'.entropy, r'.keypad⟩ := rfl
    _ = r.withMachine r'.machine := by
      rw [h.now, h.entropy, h.keypad]
      rfl

/-- It does not show that somebody takes a glance at one of the rigs. -/
theorem glance (g : Glance) : r.Alike Machine.SameButPacking 0 (r'.apply g.request).rig := by
  cases g with
  | displayFrame => exact ⟨h.machine.afterFrame, h.now, h.entropy, h.keypad⟩
  | debugFrame | isHeld code | save => exact h

/-- A fair request is answered alike by rigs that differ in packing, and leaves them so. -/
theorem ask {q : Request} (hq : q.IsFair) :
    (r.apply q).SameButPacking (r'.apply q) ∧
      (r.apply q).rig.Alike Machine.SameButPacking 0 (r'.apply q).rig := by
  have hboth := Machine.sameButPacking_lockstep.apply h q hq
  rw [q.shift_zero] at hboth
  refine ⟨⟨hboth.reply, hboth.events, ?_⟩, hboth.rig⟩
  rw [← hboth.rig.machine.eq]
  exact hboth.rig.withMachine_eq

/-- Fair requests are answered alike whatever glances come between them. -/
theorem responsesAmid {visits : List Visit}
    (hfair : ∀ q ∈ visits.filterMap Visit.asked?, q.IsFair) :
    List.Forall₂ Response.SameButPacking (r.responses (visits.filterMap Visit.asked?))
      (r'.responsesAmid visits) := by
  induction visits generalizing r r' with
  | nil => exact .nil
  | cons visit visits ih =>
    cases visit with
    | ask q =>
      obtain ⟨hresponse, hnext⟩ := h.ask (hfair q List.mem_cons_self)
      exact .cons hresponse (ih hnext fun p hp => hfair p (List.mem_cons_of_mem q hp))
    | glance g => exact ih (h.glance g) hfair

end Alike

/-- **Looking does not show.** Let others take glances at a rig between the requests of its host,
any number of them and anywhere. The host gets the replies and the reports that it would have got
without them, frames included, and after each request the rig is as it would have been but for what
is packed of its screen. -/
theorem Reachable.glances_unseen {r : Rig} (h : r.Reachable) (visits : List Visit)
    (hfair : ∀ q ∈ visits.filterMap Visit.asked?, q.IsFair) :
    List.Forall₂ Response.SameButPacking (r.responses (visits.filterMap Visit.asked?))
      (r.responsesAmid visits) := by
  obtain ⟨history, rfl⟩ := History.exists_rig_eq_iff.2 h
  have hsame : history.rig.Alike Machine.SameButPacking 0 history.rig :=
    ⟨.refl history.faithful, rfl, rfl, rfl⟩
  exact hsame.responsesAmid hfair

/-- The host draws, takes a frame, draws over it and takes another; each time somebody has taken one
just before. -/
theorem Reachable.glances_unseen_drawn :
    let r := (Rig.start 500 .standard 0 []).after
      [.load #[0xD0, 0x15, 0xD0, 0x15, 0x00, 0xE0, 0xF2, 0x0A]]
    let visits := [.glance .displayFrame, .ask (.press 3), .ask .step, .glance .save,
      .glance .displayFrame, .ask .displayFrame, .glance (.isHeld 3), .ask (.wait 4000000),
      .ask .update, .glance .displayFrame, .glance .debugFrame, .ask .displayFrame, .ask .reset]
    r.Reachable ∧ (∀ q ∈ visits.filterMap Visit.asked?, q.IsFair) ∧
      List.Forall₂ Response.SameButPacking (r.responses (visits.filterMap Visit.asked?))
        (r.responsesAmid visits) := by
  intro r visits
  have h : r.Reachable := Rig.Reachable.after (.start ..) (by simp [Request.IsPlain])
  have hasked : visits.filterMap Visit.asked? =
      [.press 3, .step, .displayFrame, .wait 4000000, .update, .displayFrame, .reset] := rfl
  have hfair : ∀ q ∈ visits.filterMap Visit.asked?, q.IsFair := by
    simp [hasked, Request.IsFair]
  exact ⟨h, hfair, h.glances_unseen visits hfair⟩

end Rig
end ChipEight

import Platoon.Foundation.Transition

/-!
# Systems made of others

A step of a system made of parts is a run of each part, of any length.  A run of
the whole is then a run of each part, whose trace is read off event by event.
The second rule is for what a part owes: a property that every step either
keeps or answers with an event; the third one finds the step that an event of a
history comes from.
-/

namespace Platoon.Foundation

namespace System

variable {π π' σ τ ε ε' ο ο' : Type}

/-- Each step of `whole` is a run of `part`, whose events `image` reads off the step. -/
def Projects (whole : System π σ ε ο) (part : System π' τ ε' ο') (view : σ → τ)
    (image : ε × ο → List (ε' × ο')) : Prop :=
  ∀ {state last : σ} {label : ε} {output : ο}, whole.step state label = .next last output →
    part.Run (view state) (image (label, output)) (view last)

namespace Projects

variable {whole : System π σ ε ο} {part : System π' τ ε' ο'} {view : σ → τ}
  {image : ε × ο → List (ε' × ο')} {first last : σ} {trace : List (ε × ο)}

/-- A run of the whole is one of the part. -/
theorem run (hprojects : Projects whole part view image) (hrun : whole.Run first trace last) :
    part.Run (view first) (trace.flatMap image) (view last) := by
  induction hrun with
  | refl => exact .refl
  | @snoc trace middle last label output hprefix hstep ih =>
      have hlast := ih.trans (hprojects hstep)
      simpa using hlast

end Projects

namespace Run

variable {sys : System π σ ε ο} {first last : σ} {trace : List (ε × ο)}

/-- What every step of a run keeps or answers holds at its end, or was answered. -/
theorem kept_or_answered (hrun : sys.Run first trace last) (prop : σ → Prop)
    (answered : ε × ο → Prop) (hfirst : prop first)
    (hstep : ∀ {before rest middle next label output}, trace = before ++ (label, output) :: rest →
      sys.Run first before middle → prop middle → sys.step middle label = .next next output →
      prop next ∨ answered (label, output)) :
    prop last ∨ ∃ event ∈ trace, answered event := by
  induction hrun with
  | refl => exact .inl hfirst
  | @snoc trace middle last label output hprefix hlast ih =>
      have hearlier := ih fun {before rest _ _ _ _} htrace => by
        apply @hstep before (rest ++ [(label, output)])
        rw [htrace, List.append_assoc, List.cons_append]
      rcases hearlier with hmiddle | ⟨event, hmem, hanswered⟩
      · rcases hstep rfl hprefix hmiddle hlast with hprop | hanswered
        · exact .inl hprop
        · exact .inr ⟨(label, output), by simp, hanswered⟩
      · exact .inr ⟨event, List.mem_append_left _ hmem, hanswered⟩

end Run

end System

end Platoon.Foundation

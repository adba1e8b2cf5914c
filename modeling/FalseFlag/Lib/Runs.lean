/-
  Runs of a state machine.

  A machine is a state type, an input type and `next`; a run is a list of inputs.  `Along P` says
  that `P` holds in every state of a run, the first and the last included, and `StepsMeet C` that
  each input met `C` in the state it was given in; `Sometime P` and `SomeStep C` say that one did.
  * **`along_iff`** — if in a good state the next one is good EXACTLY when `C` holds, then a run
    from a good state stays good exactly when all its steps meet `C`;
  * **`sometime_iff`** — if only the steps that meet `C` lead to `P`, then a run gets to `P` exactly
    when it starts there or some step meets `C`.
-/

namespace Runs

variable {σ ι : Type} (next : σ → ι → σ)

/-- `P` holds in every state of the run. -/
def Along (P : σ → Prop) : σ → List ι → Prop
  | s, [] => P s
  | s, i :: is => P s ∧ Along P (next s i) is

/-- Every step of the run meets `C`. -/
def StepsMeet (C : σ → ι → Prop) : σ → List ι → Prop
  | _, [] => True
  | s, i :: is => C s i ∧ StepsMeet C (next s i) is

/-- `P` holds in some state of the run. -/
def Sometime (P : σ → Prop) : σ → List ι → Prop
  | s, [] => P s
  | s, i :: is => P s ∨ Sometime P (next s i) is

/-- Some step of the run meets `C`. -/
def SomeStep (C : σ → ι → Prop) : σ → List ι → Prop
  | _, [] => False
  | s, i :: is => C s i ∨ SomeStep C (next s i) is

variable {next} {P Inv : σ → Prop} {C : σ → ι → Prop}

/-- An invariant of `next` holds along every run. -/
theorem along_of_invariant (hstep : ∀ s i, P s → P (next s i)) :
    ∀ {is : List ι} {s : σ}, P s → Along next P s is
  | [], _, hs => hs
  | _ :: _, _, hs => ⟨hs, along_of_invariant hstep (hstep _ _ hs)⟩

theorem Along.imp {Q : σ → Prop} (h : ∀ s, P s → Q s) : ∀ {is : List ι} {s : σ},
    Along next P s is → Along next Q s is
  | [], _, hs => h _ hs
  | _ :: _, _, hs => ⟨h _ hs.1, Along.imp h hs.2⟩

theorem Along.first : ∀ {is : List ι} {s : σ}, Along next P s is → P s
  | [], _, hs => hs
  | _ :: _, _, hs => hs.1

/-- What holds along a run holds where it ends. -/
theorem Along.last : ∀ {is : List ι} {s : σ}, Along next P s is → P (is.foldl next s)
  | [], _, hs => hs
  | _ :: _, _, hs => by
    rw [List.foldl_cons]
    exact Along.last hs.2

/-- An invariant of the steps that meet `C` holds along every run of such steps. -/
theorem along_of_stepsMeet (hstep : ∀ s i, Inv s → C s i → Inv (next s i)) :
    ∀ {is : List ι} {s : σ}, Inv s → StepsMeet next C s is → Along next Inv s is
  | [], _, hs, _ => hs
  | _ :: _, _, hs, hmeet => ⟨hs, along_of_stepsMeet hstep (hstep _ _ hs hmeet.1) hmeet.2⟩

/-- An invariant of the steps to `P` holds along every run in `P`. -/
theorem along_of_along (hstep : ∀ s i, Inv s → P (next s i) → Inv (next s i)) :
    ∀ {is : List ι} {s : σ}, Inv s → Along next P s is → Along next Inv s is
  | [], _, hs, _ => hs
  | _ :: _, _, hs, hp => ⟨hs, along_of_along hstep (hstep _ _ hs hp.2.first) hp.2⟩

/-- A run goes through its states. -/
theorem along_sometime {β : Type} (f : σ → β) {Q : β → Prop} : ∀ {is : List ι} {s : σ},
    (∀ x, Sometime next (fun s => f s = x) s is → Q x) → Along next (fun s => Q (f s)) s is
  | [], s, h => h (f s) rfl
  | _ :: _, s, h => ⟨h (f s) (.inl rfl), along_sometime f fun x hx => h x (.inr hx)⟩

/-- **Good runs**, relative to an invariant: in a good state the next one is good iff the step
    meets `C`; so a run stays good iff every step does. -/
theorem along_iff (hinv : ∀ s i, Inv s → Inv (next s i))
    (hstep : ∀ s i, Inv s → P s → (P (next s i) ↔ C s i)) :
    ∀ {is : List ι} {s : σ}, Inv s → P s → (Along next P s is ↔ StepsMeet next C s is)
  | [], _, _, hs => ⟨fun _ => trivial, fun _ => hs⟩
  | i :: is, s, hi, hs => by
    have hiff := hstep s i hi hs
    constructor
    · rintro ⟨-, h⟩
      have hnext : P (next s i) := by
        cases is with
        | nil => exact h
        | cons _ _ => exact h.1
      exact ⟨hiff.mp hnext, (along_iff hinv hstep (hinv s i hi) hnext).mp h⟩
    · rintro ⟨hc, h⟩
      have hnext := hiff.mpr hc
      exact ⟨hs, (along_iff hinv hstep (hinv s i hi) hnext).mpr h⟩

theorem Sometime.first : ∀ {is : List ι} {s : σ}, P s → Sometime next P s is
  | [], _, hs => hs
  | _ :: _, _, hs => .inl hs

theorem sometime_append : ∀ {is js : List ι} {s : σ},
    Sometime next P s (is ++ js) ↔ Sometime next P s is ∨ Sometime next P (is.foldl next s) js
  | [], js, s => ⟨.inr, fun h => h.elim (fun hs => @Sometime.first _ _ next P js s hs) id⟩
  | i :: is, js, s => by
    rw [List.cons_append, Sometime, Sometime, sometime_append, List.foldl_cons, or_assoc]

/-- What comes with `P` and stays is there where the run ends. -/
theorem Sometime.last (himp : ∀ s, P s → Inv s) (hstep : ∀ s i, Inv s → Inv (next s i)) :
    ∀ {is : List ι} {s : σ}, Sometime next P s is → Inv (is.foldl next s)
  | [], s, h => himp s h
  | i :: is, s, h => by
    rcases h with h | h
    · exact (along_of_invariant hstep (himp s h)).last
    · rw [List.foldl_cons]
      exact Sometime.last himp hstep h

/-- **Getting there**: a run is in `P` at some time iff it starts there or one of its steps leads
    there. -/
theorem sometime_iff (hto : ∀ s i, C s i → P (next s i)) (hfrom : ∀ s i, P (next s i) → P s ∨ C s i) :
    ∀ {is : List ι} {s : σ}, Sometime next P s is ↔ P s ∨ SomeStep next C s is
  | [], _ => ⟨.inl, fun h => h.elim id False.elim⟩
  | i :: is, s => by
    rw [Sometime, SomeStep, sometime_iff hto hfrom]
    constructor
    · rintro (h | h | h)
      · exact .inl h
      · exact (hfrom s i h).imp id .inl
      · exact .inr (.inr h)
    · rintro (h | h | h)
      · exact .inl h
      · exact .inr (.inl (hto s i h))
      · exact .inr (.inr h)

end Runs

import ObjectQuery.Proofs.Outcome

/-! Computations that succeed from every state or from none: whether they do is a condition on what they
are given. A variable that a failure reports as unresolved is one of given names. -/
namespace ObjectQuery
open Outcome

variable {σ α β : Type} {names : List String} {P Q : Prop}

structure Answers (names : List String) (P : Prop) (x : Except CompileError α) : Prop where
  done : (∃ a, x = .ok a) ↔ P
  blames : ∀ y, x = .error (.unresolved y) → y ∈ names

structure Decides (names : List String) (P : Prop) (x : EStateM CompileError σ α) : Prop where
  done : ∀ s, (∃ a t, x s = .ok a t) ↔ P
  blames : ∀ s y t, x s = .error (.unresolved y) t → y ∈ names

namespace Answers

variable {x : Except CompileError α} {f : α → Except CompileError β} {a : α} {e : CompileError}

theorem given : Answers names True (.ok a : Except CompileError α) := ⟨by simp, nofun⟩

theorem refused (other : ∀ y, e ≠ .unresolved y := by nofun) :
    Answers names False (.error e : Except CompileError α) := by
  refine ⟨by simp, fun y same => ?_⟩
  cases same
  exact (other y rfl).elim

theorem changed (answers : Answers names P x) (same : P ↔ Q) : Answers names Q x :=
  ⟨answers.done.trans same, answers.blames⟩

theorem settled (answers : Answers names P x) : Answers names (∃ a, x = .ok a) x := ⟨Iff.rfl, answers.blames⟩

theorem next {Q : α → Prop} (first : Answers names P x) (rest : ∀ a, x = .ok a → Answers names (Q a) (f a)) :
    Answers names (∃ a, x = .ok a ∧ Q a) (x >>= f) := by
  cases x with
  | error e =>
    refine ⟨by simp [bind, Except.bind], fun y failed => first.blames y ?_⟩
    cases failed
    rfl
  | ok a =>
    refine ⟨(rest a rfl).done.trans ?_, (rest a rfl).blames⟩
    simp

end Answers

namespace Decides

variable {x : EStateM CompileError σ α} {f : α → EStateM CompileError σ β}

theorem changed (decides : Decides names P x) (same : P ↔ Q) : Decides names Q x :=
  ⟨fun s => (decides.done s).trans same, decides.blames⟩

theorem widen {wider : List String} (decides : Decides names P x) (inside : names ⊆ wider) : Decides wider P x :=
  ⟨decides.done, fun s y t failed => inside (decides.blames s y t failed)⟩

theorem fails (decides : Decides names P x) (s : σ) : (∃ e t, x s = .error e t) ↔ ¬P := by
  rw [← decides.done s]
  cases x s with
  | ok a t => simp
  | error e t => simp

theorem given (a : α) : Decides names True (pure a : EStateM CompileError σ α) :=
  ⟨fun s => iff_of_true ⟨a, s, rfl⟩ trivial, nofun⟩

theorem refused {e : CompileError} (other : ∀ y, e ≠ .unresolved y := by nofun) :
    Decides names False (throw e : EStateM CompileError σ α) := by
  refine ⟨fun s => by simp [throwOk], fun s y t failed => ?_⟩
  cases failed
  exact (other y rfl).elim

theorem next (first : Decides names P x) (rest : ∀ s a t, x s = .ok a t → Decides names Q (f a)) :
    Decides names (P ∧ Q) (x >>= f) := by
  refine ⟨fun s => ⟨fun ⟨b, u, ok⟩ => ?_, fun ⟨p, q⟩ => ?_⟩, fun s y u failed => ?_⟩
  · obtain ⟨a, t, ran, ok⟩ := bindOk.mp ok
    exact ⟨(first.done s).mp ⟨a, t, ran⟩, ((rest s a t ran).done t).mp ⟨b, u, ok⟩⟩
  · obtain ⟨a, t, ran⟩ := (first.done s).mpr p
    obtain ⟨b, u, ok⟩ := ((rest s a t ran).done t).mpr q
    exact ⟨b, u, bindOk.mpr ⟨a, t, ran, ok⟩⟩
  · rcases bindError.mp failed with failed | ⟨a, t, ran, failed⟩
    · exact first.blames s y u failed
    · exact (rest s a t ran).blames t y u failed

theorem after (first : Decides names True x) (rest : ∀ a, Decides names Q (f a)) : Decides names Q (x >>= f) :=
  (first.next fun _ a _ _ => rest a).changed ⟨And.right, fun q => ⟨trivial, q⟩⟩

theorem lifted {x : Except CompileError α} (answers : Answers names P x) :
    Decides names P (ofExcept x : EStateM CompileError σ α) := by
  cases x with
  | ok a => exact (given a).changed ((iff_true_intro ⟨a, rfl⟩).symm.trans answers.done)
  | error e =>
    refine ⟨fun s => Iff.trans ?_ answers.done, fun s y t failed => ?_⟩
    · simp [ofExcept, throwOk]
    · cases failed
      exact answers.blames y rfl

theorem asked {x : Except CompileError α} {Q : α → Prop} (answers : Answers names P x)
    (rest : ∀ a, x = .ok a → Decides names (Q a) (f a)) :
    Decides names (∃ a, x = .ok a ∧ Q a) (ofExcept x >>= f) := by
  cases x with
  | ok a => exact (rest a rfl).changed (by simp)
  | error e =>
    refine ⟨fun s => by simp [bindOk, ofExceptOk], fun s y t failed => ?_⟩
    rcases bindError.mp failed with failed | ⟨a, u, ran, _⟩
    · exact (lifted answers).blames s y t failed
    · exact nomatch (ofExceptOk.mp ran).1

theorem checked {c : Prop} [Decidable c] {e : CompileError} {y : EStateM CompileError σ β}
    (rest : ¬c → Decides names Q y) (other : ∀ y, e ≠ .unresolved y := by nofun) :
    Decides names (¬c ∧ Q) (if c then throw e >>= f else y) := by
  split
  · next holds =>
    refine ((refused other).next fun s a t ran => (throwOk.mp ran).elim (C := Decides names Q (f a))).changed ?_
    simp [holds]
  · next fails => exact (rest fails).changed (by simp [fails])

theorem mapped {g : α → β} (decides : Decides names P x) : Decides names P (g <$> x) := by
  refine ⟨fun s => Iff.trans ?_ (decides.done s), fun s y t failed => ?_⟩
  · simp only [mapOk]
    exact ⟨fun ⟨_, t, a, ran, _⟩ => ⟨a, t, ran⟩, fun ⟨a, t, ran⟩ => ⟨g a, t, a, ran, rfl⟩⟩
  · exact decides.blames s y t (mapError.mp failed)

end Decides

theorem Decides.freshly {lay : Lay α} (decides : Decides names P lay) : Decides names P (Lay.fresh lay) := by
  refine ⟨fun n => Iff.trans ?_ (decides.done ⟨n, []⟩), fun n y m failed => ?_⟩
  · constructor
    · intro ran
      obtain ⟨⟨a, joins⟩, m, ran⟩ := ran
      exact ⟨a, _, freshOk.mp ran⟩
    · intro ran
      obtain ⟨a, ⟨m, joins⟩, ran⟩ := ran
      exact ⟨_, m, freshOk.mpr ran⟩
  · unfold Lay.fresh at failed
    split at failed
    · cases failed
    · next e r lost =>
      cases failed
      exact decides.blames _ y r lost

theorem Decides.selecting {sc : Scope} {lay : Alias → Lay (List Test × Option Division)}
    (each : ∀ root, Decides names P (lay root)) : Decides names P (sc.selecting lay) :=
  have everything : Decides names True sc.everything := ⟨fun n => by simp [everythingOk], nofun⟩
  everything.after fun s => ((each s.root).freshly.next fun _ _ _ _ => .given _).changed (and_iff_left trivial)

end ObjectQuery

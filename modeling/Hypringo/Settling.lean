import Mathlib

-- Steps that bring a condition about and do nothing where it holds, composed
-- under a relation that later steps keep to.
namespace Hypringo.Settling
variable {σ ε α β : Type}

theorem bind_ok {p : StateT σ (Except ε) α} {q : α → StateT σ (Except ε) β} {s : σ} {result : β × σ} :
    (p >>= q) s = .ok result ↔ ∃ x middle, p s = .ok (x,middle) ∧ q x middle = .ok result := by
  change (p s >>= fun r => q r.1 r.2) = _ ↔ _
  cases returned : p s with
  | error message => simp [bind,Except.bind]
  | ok value =>
    obtain ⟨x,middle⟩ := value
    constructor
    · intro rest
      exact ⟨x,middle,rfl,rest⟩
    · rintro ⟨_,_,same,rest⟩
      cases same
      exact rest

theorem bind_eq {p : StateT σ (Except ε) α} {q : α → StateT σ (Except ε) β} {s middle : σ} {x : α}
    (first : p s = .ok (x,middle)) : (p >>= q) s = q x middle := by
  change (p s >>= fun r => q r.1 r.2) = _
  rw [first]
  rfl

theorem pure_ok {x y : α} {s later : σ} : (pure x : StateT σ (Except ε) α) s = .ok (y,later) ↔ y = x ∧ later = s := by
  change Except.ok (x,s) = Except.ok (y,later) ↔ _
  simp [eq_comm]

def Lasting (R : σ → σ → Prop) (P : σ → Prop) : Prop := ∀ s later, R s later → P s → P later

structure Converges (R : σ → σ → Prop) (given : σ → Prop) (p : StateT σ (Except ε) Unit) (post : σ → Prop) : Prop where
  establishes : ∀ s later, given s → p s = .ok ((),later) → R s later ∧ post later
  rests : ∀ s, given s → post s → p s = .ok ((),s)

section Rules
variable {R : σ → σ → Prop} {given other P Q : σ → Prop} {p q : StateT σ (Except ε) Unit}

theorem Lasting.and (left : Lasting R P) (right : Lasting R Q) : Lasting R (fun s => P s ∧ Q s) :=
  fun s later kept holds => ⟨left s later kept holds.1,right s later kept holds.2⟩

theorem Converges.weaken (converges : Converges R given p P) (stronger : ∀ s, other s → given s) :
    Converges R other p P :=
  ⟨fun s later holds => converges.establishes s later (stronger s holds),fun s holds => converges.rests s (stronger s holds)⟩

theorem Converges.seq (trans : ∀ {s middle later}, R s middle → R middle later → R s later)
    (first : Converges R given p P) (keptGiven : Lasting R given) (kept : Lasting R P)
    (second : Converges R (fun s => given s ∧ P s) q Q) : Converges R given (p >>= fun _ => q) (fun s => P s ∧ Q s) := by
  refine ⟨?_,?_⟩
  · intro s later holds done
    obtain ⟨_,middle,one,two⟩ := bind_ok.mp done
    obtain ⟨before,held⟩ := first.establishes s middle holds one
    obtain ⟨after,result⟩ := second.establishes middle later ⟨keptGiven s middle before holds,held⟩ two
    exact ⟨trans before after,kept middle later after held,result⟩
  · intro s holds result
    rw [bind_eq (first.rests s holds result.1)]
    exact second.rests s ⟨holds,result.1⟩ result.2

end Rules
end Hypringo.Settling

/-!
# Steps of readers

A reader works on what is left to read, and may refuse it.
-/

namespace StyleAudit
set_option autoImplicit false

section Steps
variable {ε σ α β : Type} {s t : σ} {p : StateT σ (Except ε) α} {k : α → StateT σ (Except ε) β}

theorem bind_ok {a : α} (h : p s = .ok (a, t)) : (p >>= k) s = k a t := by
  change (p s >>= fun x => k x.1 x.2) = _
  rw [h]
  rfl

theorem bind_error {e : ε} (h : p s = .error e) : (p >>= k) s = .error e := by
  change (p s >>= fun x => k x.1 x.2) = _
  rw [h]
  rfl

theorem bind_of_map {x : Except ε α} (h : p s = x.map fun a => (a, t))
    (k : α → StateT σ (Except ε) β) : (p >>= k) s = x.bind fun a => k a t := by
  cases x with
  | error e => exact bind_error h
  | ok a => exact bind_ok h

theorem bind_eq_ok_iff {b : β} : (p >>= k) s = .ok (b, t) ↔
    ∃ a mid, p s = .ok (a, mid) ∧ k a mid = .ok (b, t) := by
  cases hp : p s with
  | error e =>
    rw [bind_error hp]
    exact ⟨nofun, nofun⟩
  | ok x =>
    rw [bind_ok hp]
    exact ⟨fun h => ⟨x.1, x.2, rfl, h⟩, fun ⟨_, _, rfl, h⟩ => h⟩

theorem pure_eq_ok_iff (a b : α) :
    (pure a : StateT σ (Except ε) α) s = .ok (b, t) ↔ s = t ∧ b = a := by
  change (.ok (a, s) : Except ε (α × σ)) = _ ↔ _
  rw [Except.ok.injEq, Prod.mk.injEq, and_comm, eq_comm (a := a)]

theorem get_bind (k : σ → StateT σ (Except ε) β) (s : σ) : (get >>= k) s = k s s := rfl

theorem set_bind (k : PUnit → StateT σ (Except ε) β) (s t : σ) :
    (set t >>= k) s = k ⟨⟩ t := rfl

theorem modify_bind (f : σ → σ) (k : PUnit → StateT σ (Except ε) β) (s : σ) :
    (modify f >>= k) s = k ⟨⟩ (f s) := rfl

end Steps

end StyleAudit

namespace Soql

variable {τ σ α β κ : Type}

theorem run_bind (r : StateM σ α) (f : α → StateM σ β) (s : σ) :
    (r >>= f).run s = (f (r.run s).1).run (r.run s).2 :=
  rfl

theorem run_pure (a : α) (s : σ) : (pure a : StateM σ α).run s = (a, s) :=
  rfl

def Projects (part : τ → σ) (r : StateM τ α) (r' : StateM σ α) : Prop :=
  ∀ x, ((r.run x).1, part (r.run x).2) = r'.run (part x)

namespace Projects

variable {part : τ → σ}

theorem pure (a : α) : Projects part (pure a) (pure a) :=
  fun _ => rfl

theorem bind {r : StateM τ α} {r' : StateM σ α} {f : α → StateM τ β} {f' : α → StateM σ β}
    (h : Projects part r r') (hf : ∀ a, Projects part (f a) (f' a)) :
    Projects part (r >>= f) (r' >>= f') := by
  intro x
  rw [run_bind, run_bind, ← h x]
  exact hf _ _

theorem ite {c : Prop} [Decidable c] {r s : StateM τ α} {r' s' : StateM σ α}
    (hr : Projects part r r') (hs : Projects part s s') :
    Projects part (if c then r else s) (if c then r' else s') := by
  split
  · exact hr
  · exact hs

theorem get_bind {f : τ → StateM τ α} {f' : σ → StateM σ α}
    (hf : ∀ x, Projects part (f x) (f' (part x))) : Projects part (get >>= f) (get >>= f') :=
  fun x => hf x x

theorem modifyGet {f : τ → α × τ} {f' : σ → α × σ}
    (h : ∀ x, ((f x).1, part (f x).2) = f' (part x)) :
    Projects part (modifyGet f) (modifyGet f') :=
  h

theorem mapM {l : List α} {f : α → StateM τ β} {f' : α → StateM σ β}
    (hf : ∀ a, Projects part (f a) (f' a)) : Projects part (l.mapM f) (l.mapM f') := by
  induction l with
  | nil => exact pure []
  | cons a l ih =>
    rw [List.mapM_cons, List.mapM_cons]
    exact (hf a).bind fun _ => ih.bind fun _ => pure _

theorem bind_beside {r : StateT κ (StateM τ) α} {r' : StateT κ (StateM σ) α}
    {f : α → StateT κ (StateM τ) β} {f' : α → StateT κ (StateM σ) β}
    (h : ∀ c, Projects part (r.run c) (r'.run c))
    (hf : ∀ a c, Projects part ((f a).run c) ((f' a).run c)) (c : κ) :
    Projects part ((r >>= f).run c) ((r' >>= f').run c) :=
  (h c).bind fun p => hf p.1 p.2

theorem lift_beside {r : StateM τ α} {r' : StateM σ α}
    (h : Projects part r r') (c : κ) :
    Projects part ((liftM r : StateT κ (StateM τ) α).run c)
      ((liftM r' : StateT κ (StateM σ) α).run c) :=
  h.bind fun a => pure (a, c)

end Projects

def Adds (measure : σ → Nat) (n : Nat) (r : StateM σ α) : Prop :=
  ∀ x, measure (r.run x).2 ≤ measure x + n

namespace Adds

variable {measure : σ → Nat} {n : Nat}

theorem pure (a : α) : Adds measure n (pure a) :=
  fun x => Nat.le_add_right (measure x) n

theorem bind {m : Nat} {r : StateM σ α} {f : α → StateM σ β} (h : Adds measure n r)
    (hf : ∀ a, Adds measure m (f a)) : Adds measure (n + m) (r >>= f) := by
  intro x
  rw [run_bind]
  have hfirst := h x
  have hthen := hf (r.run x).1 (r.run x).2
  omega

/-- After a program that adds nothing. -/
theorem after {r : StateM σ α} {f : α → StateM σ β} (h : Adds measure 0 r)
    (hf : ∀ a, Adds measure n (f a)) : Adds measure n (r >>= f) :=
  Nat.zero_add n ▸ h.bind hf

theorem get_bind {f : σ → StateM σ α} (hf : ∀ x, Adds measure n (f x)) :
    Adds measure n (get >>= f) :=
  fun x => hf x x

theorem ite {c : Prop} [Decidable c] {r s : StateM σ α} (hr : Adds measure n r)
    (hs : Adds measure n s) : Adds measure n (if c then r else s) := by
  split
  · exact hr
  · exact hs

theorem mapM {l : List α} {f : α → StateM σ β} (hf : ∀ a, Adds measure 0 (f a)) :
    Adds measure 0 (l.mapM f) := by
  induction l with
  | nil => exact pure []
  | cons a l ih =>
    rw [List.mapM_cons]
    exact (hf a).after fun _ => ih.after fun _ => pure _

theorem after_beside {r : StateT κ (StateM σ) α}
    {f : α → StateT κ (StateM σ) β} (h : ∀ c, Adds measure 0 (r.run c))
    (hf : ∀ a c, Adds measure n ((f a).run c)) (c : κ) : Adds measure n ((r >>= f).run c) :=
  (h c).after fun p => hf p.1 p.2

theorem lift_beside {r : StateM σ α} (h : Adds measure n r)
    (c : κ) : Adds measure n ((liftM r : StateT κ (StateM σ) α).run c) :=
  h.bind (m := 0) fun a => pure (a, c)

end Adds

end Soql

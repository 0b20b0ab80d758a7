namespace Soql.Text

def covered (spans : List (Nat × Nat)) (n : Nat) : Bool :=
  spans.any fun span => span.1 ≤ n && n ≤ span.2

/-- A row `(low, high, step, shift)` moves every `step`-th code point from `low` to `high` by
`shift`; a code point of no row stays. -/
def shifted (rows : List (Nat × Nat × Nat × Int)) (n : Nat) : Nat :=
  match rows.find? fun (low, high, step, _) => low ≤ n && n ≤ high && (n - low) % step == 0 with
  | some (_, _, _, shift) => (n + shift).toNat
  | none => n

end Soql.Text

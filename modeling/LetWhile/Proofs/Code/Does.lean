import LetWhile.Proofs.Code.Machine

/-!
What straight code does when it runs: it comes to its end, or it stops the program on the way.
There is one rule for each line that lowering emits, and one for code that follows other code.
-/
namespace LetWhile.Code

namespace Gen

variable {α β : Type}

/-- Wherever the code of `g` stands in the function, running it from `d` leads to its end, with a
value and data that meet `Q`, or to a trap, with a message and data that meet `E`. It leaves the
registers that were there as they are. -/
def Does (f : Function) (g : Gen α) (c : Counters) (d : Data) (Q : α → Nat → Data → Prop)
    (E : String → Data → Prop) : Prop :=
  ∀ e, g.run c = .ok e → ∀ rest, e.lines ++ rest <:+ f.lines →
    (∃ n d', Steps f n ⟨e.lines ++ rest, d⟩ ⟨rest, d'⟩ ∧ c.regs ≤ e.next.regs ∧
      (∀ r < c.regs, d'.regs r = d.regs r) ∧ Q e.value e.next.regs d') ∨
    ∃ n m message, Steps f n ⟨e.lines ++ rest, d⟩ m ∧ m.step f = .trapped message ∧
      E message m.data

variable {f : Function} {c : Counters} {d : Data} {Q : α → Nat → Data → Prop}
  {E : String → Data → Prop}

theorem Does.mono {g : Gen α} {Q' : α → Nat → Data → Prop} {E' : String → Data → Prop}
    (h : Does f g c d Q E) (hQ : ∀ a hi d', Q a hi d' → Q' a hi d')
    (hE : ∀ message d', E message d' → E' message d') : Does f g c d Q' E' := by
  intro e he rest place
  obtain ⟨n, d', run, le, same, post⟩ | ⟨n, m, message, run, trapped, post⟩ := h e he rest place
  · exact .inl ⟨n, d', run, le, same, hQ _ _ _ post⟩
  · exact .inr ⟨n, m, message, run, trapped, hE _ _ post⟩

theorem does_pure {a : α} (h : Q a c.regs d) : Does f (pure a) c d Q E := by
  rintro _ ⟨⟩ rest place
  exact .inl ⟨0, d, .none, Nat.le_refl _, fun _ _ => rfl, h⟩

/-- Code that follows other code starts where that ends. -/
theorem Does.bind {g : Gen α} {k : α → Gen β} {P : α → Nat → Data → Prop}
    {Q : β → Nat → Data → Prop} (hg : Does f g c d P E)
    (hk : ∀ a (c' : Counters) d', c.regs ≤ c'.regs → (∀ r < c.regs, d'.regs r = d.regs r) →
      P a c'.regs d' → Does f (k a) c' d' Q E) : Does f (g >>= k) c d Q E := by
  intro e he rest place
  obtain ⟨a, ha, b, hb, rfl⟩ := run_bind_eq_ok.1 he
  simp only [List.append_assoc] at place ⊢
  obtain ⟨n, d₁, run, le, same, post⟩ | stopped := hg a ha (b.lines ++ rest) place
  · have further : b.lines ++ rest <:+ f.lines := (List.suffix_append _ _).trans place
    obtain ⟨n₂, d₂, run₂, le₂, same₂, post₂⟩ | ⟨n₂, m, message, run₂, trapped, post₂⟩ :=
      hk a.value a.next d₁ le same post b hb rest further
    · refine .inl ⟨n + n₂, d₂, run.append run₂, Nat.le_trans le le₂, ?_, post₂⟩
      intro r low
      rw [same₂ r (Nat.lt_of_lt_of_le low le), same r low]
    · exact .inr ⟨n + n₂, m, message, run.append run₂, trapped, post₂⟩
  · exact .inr stopped

theorem does_compute {Q : Operand → Nat → Data → Prop} {i : Instr} {w : Word}
    (value : i.eval d = some w) (h : Q (.reg c.regs) (c.regs + 1) (d.setReg c.regs w)) :
    Does f (compute i) c d Q E := by
  rintro _ ⟨⟩ rest place
  refine .inl ⟨1, d.setReg c.regs w, .one ?_, Nat.le_succ _, ?_, h⟩
  · simp [Machine.step, value]
  · intro r low
    simp [Data.setReg, Nat.ne_of_lt low]

theorem does_store {Q : Unit → Nat → Data → Prop} {ty : Ty} {value target : Operand} {w : Word}
    {cell : Cell} (hv : value.eval d = some w) (ht : target.eval d = some (.pointer cell))
    (types : w.ty = ty ∧ cell.part.ty = ty) (reserved : d.memory cell ≠ .absent)
    (h : Q () c.regs (d.put cell (.holding w))) : Does f (store ty value target) c d Q E := by
  rintro _ ⟨⟩ rest place
  refine .inl ⟨1, d.put cell (.holding w), .one ?_, Nat.le_refl _, fun _ _ => rfl, h⟩
  simp [Machine.step, Effect.step, hv, ht, types, reserved]

theorem does_print {Q : Unit → Nat → Data → Prop} {isBool num : Operand} {b : Bool} {x : Float}
    (hb : isBool.eval d = some (.bit b)) (hn : num.eval d = some (.double x))
    (h : Q () c.regs (d.print b x)) : Does f (emit (.act (.print isBool num))) c d Q E := by
  rintro _ ⟨⟩ rest place
  refine .inl ⟨1, d.print b x, .one ?_, Nat.le_refl _, fun _ _ => rfl, h⟩
  simp [Machine.step, Effect.step, hb, hn]

/-- Code behind a stop is never reached. -/
theorem Does.stops {g : Gen α} {k : α → Gen β} {Q : β → Nat → Data → Prop}
    (h : Does f g c d (fun _ _ _ => False) E) : Does f (g >>= k) c d Q E :=
  h.bind fun _ _ _ _ _ impossible => impossible.elim

theorem does_trap {message : String} (h : E message d) :
    Does f (trap message) c d (fun _ _ _ => False) E := by
  rintro _ ⟨⟩ rest place
  exact .inr ⟨0, _, message, .none, rfl, h⟩

theorem does_guard_stops (nodup : (labels f.lines).Nodup) {failed : Operand} {message : String}
    (failing : failed.eval d = some (.bit true)) (h : E message d) :
    Does f (guard failed message) c d (fun _ _ _ => False) E := by
  rintro _ ⟨⟩ rest place
  let stop : List Line := .act (.trap (.text message)) :: .jump .unreachable ::
    .label (.numbered "ok" (c.labels + 2)) :: rest
  have atTrap : .label (.numbered "trap" (c.labels + 1)) :: stop <:+ f.lines :=
    (List.suffix_cons _ _).trans place
  have arrives := f.goto_place nodup atTrap d
  refine .inr ⟨1, ⟨stop, d⟩, message, .one ?_, rfl, h⟩
  simpa [Machine.step, Jump.step, failing] using arrives

theorem does_guard_goes (nodup : (labels f.lines).Nodup) {failed : Operand} {message : String}
    (passing : failed.eval d = some (.bit false)) :
    Does f (guard failed message) c d (fun _ _ d' => d' = d) E := by
  rintro _ ⟨⟩ rest place
  have atOk : .label (.numbered "ok" (c.labels + 2)) :: rest <:+ f.lines :=
    (List.suffix_append ((guardLines failed message c.labels).take 4) _).trans place
  have arrives := f.goto_place nodup atOk d
  refine .inl ⟨1, d, .one ?_, Nat.le_refl _, fun _ _ => rfl, rfl⟩
  simpa [Machine.step, Jump.step, passing] using arrives

end Gen

end LetWhile.Code

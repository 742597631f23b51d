import Coordination.Proofs.MergeLaws
import Coordination.Json.Reader

/-!
Every value read from text is sorted: the reader builds each object by inserting its entries
one by one into a sorted list, a later entry for a key replacing the earlier one, so the keys of
every object it returns strictly increase. The proof follows the reader's three mutually
recursive parts by induction on their fuel, through a postcondition on what a reading step
returns when it succeeds (`Yields`).
-/

namespace Coordination.Json

namespace Reader

/-- Whenever the step succeeds, what it returns satisfies `P`. -/
def Yields {α : Type} (r : Reader α) (P : α → Prop) : Prop :=
  ∀ c a c', StateT.run r c = .ok (a, c') → P a

variable {α β : Type} {P : β → Prop}

theorem Yields.bind {Q : α → Prop} {x : Reader α} {f : α → Reader β} (hx : Yields x Q)
    (hf : ∀ a, Q a → Yields (f a) P) : Yields (x >>= f) P := by
  intro c b c' h
  rw [StateT.run_bind] at h
  cases hxc : StateT.run x c with
  | error e => rw [hxc] at h; cases h
  | ok p => rw [hxc] at h; exact hf p.1 (hx c p.1 p.2 hxc) p.2 b c' h

theorem Yields.bind_any {x : Reader α} {f : α → Reader β} (hf : ∀ a, Yields (f a) P) :
    Yields (x >>= f) P :=
  Yields.bind (Q := fun _ => True) (fun _ _ _ _ => trivial) fun a _ => hf a

theorem yields_pure {b : β} (h : P b) : Yields (pure b) P := by
  intro c a c' hc
  rw [StateT.run_pure] at hc
  cases hc
  exact h

theorem yields_map {x : Reader α} {g : α → β} (h : ∀ a, P (g a)) : Yields (g <$> x) P := by
  rw [← bind_pure_comp]
  exact Yields.bind_any fun a => yields_pure (h a)

theorem yields_fail (p : Problem) : Yields (fail p : Reader β) P := by
  intro c a c' h
  simp [fail, StateT.run_bind, StateT.run_get] at h
  cases h

theorem yields_failPeek (p : Problem) : Yields (failPeek p : Reader β) P := by
  intro c a c' h
  simp [failPeek] at h
  cases h

theorem run_of_yields {r : Reader β} (h : Yields r P) {t : ByteArray} {b : β}
    (hr : Reader.run r t = .ok b) : P b := by
  have hx : Yields (do let a ← r; finish; pure a) P :=
    h.bind fun a ha => Yields.bind_any fun _ => yields_pure ha
  change (·.1) <$> StateT.run (do let a ← r; finish; pure a) ⟨t, 0⟩ = _ at hr
  cases hrun : StateT.run (do let a ← r; finish; pure a) ⟨t, 0⟩ with
  | error e => rw [hrun] at hr; cases hr
  | ok p =>
    rw [hrun] at hr
    cases hr
    exact hx _ p.1 p.2 hrun

/-- The reader's three parts at one fuel: a value is sorted, so is every item of an array, and
the entries of an object, read onto a sorted list, stay sorted. By induction on the fuel, since
each part calls the others with one less. -/
theorem sorted_at (fuel : Nat) :
    (∀ d, Yields (value d fuel) Value.Sorted) ∧
    (∀ d first, Yields (items d fuel first) fun xs => ∀ x ∈ xs, x.Sorted) ∧
    (∀ d first acc, (Value.obj acc).Sorted →
      Yields (entries d fuel first acc) fun kvs => (Value.obj kvs).Sorted) := by
  induction fuel with
  | zero =>
    refine ⟨fun d => ?_, fun d first => ?_, fun d first acc _ => ?_⟩ <;>
      simpa [value, items, entries] using yields_fail _
  | succ fuel ih =>
    obtain ⟨hvalue, hitems, hentries⟩ := ih
    refine ⟨fun d => ?_, fun d first => ?_, fun d first acc hacc => ?_⟩
    · rw [value]
      refine Yields.bind_any fun o => ?_
      rcases o with _ | b
      · exact yields_failPeek _
      dsimp only
      split_ifs
      -- the scalars
      · exact Yields.bind_any fun _ => Yields.bind_any fun _ => yields_pure .null
      · exact Yields.bind_any fun _ => Yields.bind_any fun _ => yields_pure (.bool _)
      · exact Yields.bind_any fun _ => Yields.bind_any fun _ => yields_pure (.bool _)
      · exact Yields.bind_any fun _ => yields_map fun _ => .num _
      · exact yields_map fun _ => .num _
      · exact Yields.bind_any fun _ => yields_map fun _ => .str _
      -- an array and an object hold what the other parts read
      · exact Yields.bind_any fun d' => (hitems d' true).bind fun xs hxs =>
          Yields.bind_any fun _ => yields_pure (.arr hxs)
      · exact Yields.bind_any fun d' =>
          (hentries d' true [] (.obj List.Pairwise.nil (by simp))).bind fun kvs hkvs =>
            Yields.bind_any fun _ => yields_pure hkvs
      · exact yields_failPeek _
    · rw [items]
      refine Yields.bind_any fun o => ?_
      rcases o with _ | _
      · exact yields_pure (by simp)
      dsimp only
      exact (hvalue d).bind fun v hv => (hitems d false).bind fun xs hxs =>
        yields_pure (by simpa [hv] using hxs)
    · rw [entries]
      refine Yields.bind_any fun o => ?_
      rcases o with _ | k
      · exact yields_pure hacc
      dsimp only
      -- the entry read is inserted into the sorted list read so far
      refine Yields.bind_any fun _ => (hvalue d).bind fun v hv => hentries d false _ ?_
      cases hacc with
      | obj hs hvs =>
        refine .obj hs.insert fun kv hkv => ?_
        rcases Fields.mem_insert hkv with rfl | hkv
        · exact hv
        · exact hvs kv hkv

end Reader

theorem Value.Sorted.of_text {s : String} {v : Value} (h : Value.ofText s = .ok v) : v.Sorted :=
  Reader.run_of_yields (Reader.Yields.bind_any fun _ => (Reader.sorted_at _).1 _) h

end Coordination.Json

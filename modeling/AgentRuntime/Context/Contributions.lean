import AgentRuntime.Context.Manager
import AgentRuntime.Keyed

/-!
# Merged contributions

`merge_contributions` keeps a strongest contribution for each scope and key, and sorts them. What it
returns depends on the contributions and not on their order, unless two of them disagree.

* `best_chosen` — the table of the loop;
* `Merged`, `Unambiguous` — what is returned, and when it is determined;
* `mergeContributions_spec` — the whole of it.
-/

set_option autoImplicit false

namespace AgentRuntime

open ContextContribution

variable {items items' merged : List ContextContribution}

/-- What is merged of some contributions: one for each key, none of the others with that key is stronger,
in the order of their ranks. -/
structure Merged (items merged : List ContextContribution) : Prop where
  one : (merged.map key).Nodup
  keys : ∀ k, k ∈ merged.map key ↔ k ∈ items.map key
  strongest : ∀ best ∈ merged, best ∈ items ∧
    ∀ item ∈ items, item.key = best.key → item.strength ≤ best.strength
  ordered : merged.Pairwise fun a b => a.rank < b.rank

/-- Contributions with the same key and equally strong are the same. -/
def Unambiguous (items : List ContextContribution) : Prop :=
  ∀ a ∈ items, ∀ b ∈ items, a.key = b.key → a.strength = b.strength → a = b

theorem key_eq_of_rank {a b : ContextContribution} (h : a.rank = b.rank) : a.key = b.key := by
  simp only [rank, EmbeddingLike.apply_eq_iff_eq, Prod.mk.injEq] at h
  exact Prod.ext h.2.1 h.2.2.2

/-- The loop, as an insertion into the table of strongest items. -/
theorem chooseContribution_eq (item : ContextContribution) : ∀ chosen : List ContextContribution,
    chooseContribution item chosen = Keyed.insertBest key strength item chosen
  | [] => rfl
  | current :: chosen => by
    rw [chooseContribution, Keyed.insertBest, chooseContribution_eq item chosen]

/-- The contributions that the loop has chosen. -/
def chosenContributions (items : List ContextContribution) : List ContextContribution :=
  items.foldl (fun chosen item => chooseContribution item chosen) []

theorem best_chosen (items : List ContextContribution) :
    Keyed.Best key strength items (chosenContributions items) := by
  have hloop : Keyed.Best key strength ([] ++ items)
      (items.foldl (fun chosen item => Keyed.insertBest key strength item chosen) []) :=
    Keyed.Best.nil.foldl items
  have hsame : (fun chosen item => chooseContribution item chosen) =
      fun chosen item => Keyed.insertBest key strength item chosen :=
    funext₂ fun chosen item => chooseContribution_eq item chosen
  unfold chosenContributions
  rw [hsame]
  exact hloop

theorem mergeContributions_perm (items : List ContextContribution) :
    (mergeContributions items).Perm (chosenContributions items) := List.mergeSort_perm _ _

theorem best_merged (items : List ContextContribution) :
    Keyed.Best key strength items (mergeContributions items) :=
  (best_chosen items).congr (List.Perm.refl items) (mergeContributions_perm items).symm

/-- What is merged is the first of the strongest with its key. -/
theorem mem_mergeContributions {best : ContextContribution} :
    best ∈ mergeContributions items ↔ Keyed.First key strength items best := by
  rw [(mergeContributions_perm items).mem_iff, ← Keyed.mem_foldl_insertBest]
  unfold chosenContributions
  rw [show (fun chosen item => chooseContribution item chosen) =
    fun chosen item => Keyed.insertBest key strength item chosen from
      funext₂ fun chosen item => chooseContribution_eq item chosen]

/-- An item is merged, unless another one with its key is stronger, or as strong and before it. -/
theorem merged_or_rival {before after : List ContextContribution} (item : ContextContribution) :
    item ∈ mergeContributions (before ++ item :: after) ∨
      (∃ rival ∈ before, rival.key = item.key ∧ item.strength ≤ rival.strength) ∨
      ∃ rival ∈ after, rival.key = item.key ∧ item.strength < rival.strength := by
  by_cases hbefore : ∃ rival ∈ before, rival.key = item.key ∧ item.strength ≤ rival.strength
  · exact .inr (.inl hbefore)
  by_cases hafter : ∃ rival ∈ after, rival.key = item.key ∧ item.strength < rival.strength
  · exact .inr (.inr hafter)
  refine .inl (mem_mergeContributions.mpr ⟨before, after, rfl, fun rival hrival hkey => ?_,
    fun rival hrival hkey => ?_⟩)
  · exact not_le.mp fun hle => hbefore ⟨rival, hrival, hkey, hle⟩
  · exact not_lt.mp fun hlt => hafter ⟨rival, hrival, hkey, hlt⟩

/-- The older of two equally strong items stays. -/
theorem notMem_of_rival {before after : List ContextContribution} {item rival : ContextContribution}
    (hrival : rival ∈ before) (hkey : rival.key = item.key) (hless : item.strength ≤ rival.strength)
    (hnew : item ∉ before) : item ∉ mergeContributions (before ++ item :: after) := by
  intro hmem
  have hstronger := (mem_mergeContributions.mp hmem).stronger hnew hrival hkey
  exact absurd hstronger (not_lt.mpr hless)

theorem rank_injective (h : (merged.map key).Nodup) :
    ∀ a ∈ merged, ∀ b ∈ merged, a.rank = b.rank → a = b :=
  fun _ ha _ hb hrank => List.inj_on_of_nodup_map h ha hb (key_eq_of_rank hrank)

theorem mergeContributions_sorted (items : List ContextContribution) :
    (mergeContributions items).Pairwise fun a b => a.rank ≤ b.rank :=
  Keyed.pairwise_mergeSort rank (chosenContributions items)

theorem merged_mergeContributions (items : List ContextContribution) :
    Merged items (mergeContributions items) := by
  have hbest := best_merged items
  refine ⟨hbest.nodup, hbest.mem_keys, fun best hmem => ?_, ?_⟩
  · exact ⟨hbest.subset hmem, fun item hitem hkey => hbest.strongest hmem hitem hkey⟩
  · -- two of them with one rank would have one key
    have hdistinct : (mergeContributions items).Pairwise fun a b => a.key ≠ b.key :=
      List.pairwise_map.mp hbest.nodup
    refine (hdistinct.and (mergeContributions_sorted items)).imp fun ⟨hkey, hrank⟩ => ?_
    exact lt_of_le_of_ne hrank fun heq => hkey (key_eq_of_rank heq)

/-- What is chosen is the same in any order, and so is what is sorted. -/
theorem mergeContributions_of_perm (h : items.Perm items') (hsame : Unambiguous items) :
    mergeContributions items = mergeContributions items' := by
  have hbest := best_chosen items
  have hbest' := (best_chosen items').congr h.symm (List.Perm.refl _)
  exact Keyed.mergeSort_eq_of_perm (hbest.perm hbest' hsame) (rank_injective hbest.nodup)

theorem mergeContributions_idem (items : List ContextContribution) :
    mergeContributions (mergeContributions items) = mergeContributions items := by
  have hbest := best_merged items
  have hself := hbest.self
  -- what is merged already cannot disagree with itself
  have hperm : (chosenContributions (mergeContributions items)).Perm (mergeContributions items) :=
    (best_chosen _).perm hself fun a ha b hb hkey _ => hbest.eq_of_key ha hb hkey
  calc mergeContributions (mergeContributions items)
      = (mergeContributions items).mergeSort fun a b => decide (a.rank ≤ b.rank) :=
        Keyed.mergeSort_eq_of_perm hperm (rank_injective (best_chosen _).nodup)
    _ = mergeContributions items :=
        List.mergeSort_of_pairwise ((mergeContributions_sorted items).imp decide_eq_true)

/-- **Merging.** There is one contribution for each scope and key, a strongest one, in the order of
descending priority, scope, source and key; merging again changes nothing; and the order in which the
contributions were collected does not matter to the result, nor to the prompt, unless two of them agree
in scope, key, priority and source and in nothing else. -/
theorem mergeContributions_spec (items : List ContextContribution) :
    Merged items (mergeContributions items) ∧
      mergeContributions (mergeContributions items) = mergeContributions items ∧
      ∀ collected collected' : List ContextContribution, collected.Perm items → collected'.Perm items →
        Unambiguous items → mergeContributions collected = mergeContributions collected' ∧
          ∀ history, contributionMessages (mergeContributions collected) ++ history =
            contributionMessages (mergeContributions collected') ++ history := by
  refine ⟨merged_mergeContributions items, mergeContributions_idem items, ?_⟩
  intro collected collected' h h' hsame
  have heq : mergeContributions collected = mergeContributions collected' :=
    (mergeContributions_of_perm h.symm hsame).symm.trans (mergeContributions_of_perm h'.symm hsame)
  exact ⟨heq, fun history => by rw [heq]⟩

/-- Three contributions, two of them with one key. -/
def threeContributions : List ContextContribution :=
  [⟨"b", "B", "sys", 1, "k"⟩, ⟨"a", "A", "sys", 2, "k"⟩, ⟨"c", "C", "user", 1, "k"⟩]

theorem threeContributions_reversed :
    mergeContributions threeContributions = mergeContributions threeContributions.reverse :=
  ((mergeContributions_spec threeContributions).2.2 _ _ (List.Perm.refl _) (List.reverse_perm _) (by
    unfold Unambiguous threeContributions
    decide)).1

end AgentRuntime

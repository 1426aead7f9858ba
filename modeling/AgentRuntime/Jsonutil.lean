/-!
# Python values of JSON data, freezing and thawing

`jsonutil.py`. A `Value` is a Python value as it occurs in tool schemas and tool arguments; the two
kinds of sequence and the two kinds of mapping are kept apart, since freezing turns the one into
the other:

* `freezeJson` — lists become tuples and dicts become mapping proxies, at every depth;
* `thawJson` — the converse;
* `Value.pyEq` — Python's `==`: numbers compare by value, mappings whatever their kind and order,
  a tuple is never equal to a list.

`thawJson_freezeJson` — thawing gives back plain JSON data unchanged.
-/

set_option autoImplicit false

namespace AgentRuntime

/-- A Python value of JSON data. Floats are finite, hence rational numbers. -/
inductive Value where
  | none
  | bool (b : Bool)
  | int (n : Int)
  | float (q : Rat)
  | str (s : String)
  | list (xs : List Value)
  | tuple (xs : List Value)
  | dict (kvs : List (String × Value))
  | proxy (kvs : List (String × Value))
  deriving Repr

namespace Value

/-- Python treats booleans, integers and floats as numbers in comparisons. -/
def num? : Value → Option Rat
  | bool b => some (if b then 1 else 0)
  | int n => some n
  | float q => some q
  | _ => Option.none

mutual

/-- Python's `==`. -/
def pyEq : Value → Value → Bool
  | none, none => true
  | bool b, w => (bool b).num? == w.num?
  | int n, w => (int n).num? == w.num?
  | float q, w => (float q).num? == w.num?
  | str s, str t => s == t
  | list xs, list ys => pyEqs xs ys
  | tuple xs, tuple ys => pyEqs xs ys
  | dict kvs, dict kws => kvs.length == kws.length && pyFound kvs kws
  | dict kvs, proxy kws => kvs.length == kws.length && pyFound kvs kws
  | proxy kvs, dict kws => kvs.length == kws.length && pyFound kvs kws
  | proxy kvs, proxy kws => kvs.length == kws.length && pyFound kvs kws
  | _, _ => false

def pyEqs : List Value → List Value → Bool
  | [], [] => true
  | x :: xs, y :: ys => pyEq x y && pyEqs xs ys
  | _, _ => false

/-- Every entry of the first mapping is found, with an equal value, in the second. -/
def pyFound : List (String × Value) → List (String × Value) → Bool
  | [], _ => true
  | (k, v) :: kvs, kws => kws.any (fun kw => kw.1 == k && pyEq v kw.2) && pyFound kvs kws

end

/-- The entries of a mapping. -/
def fields? : Value → Option (List (String × Value))
  | dict kvs | proxy kvs => some kvs
  | _ => Option.none

/-- A list, tuple, dict or mapping proxy. -/
def isContainer : Value → Bool
  | list _ | tuple _ | dict _ | proxy _ => true
  | _ => false

mutual

/-- JSON data as a parser builds it: lists and dicts only. -/
def plain : Value → Bool
  | list xs => plainItems xs
  | dict kvs => plainFields kvs
  | tuple _ | proxy _ => false
  | _ => true

def plainItems : List Value → Bool
  | [] => true
  | x :: xs => plain x && plainItems xs

def plainFields : List (String × Value) → Bool
  | [] => true
  | (_, v) :: kvs => plain v && plainFields kvs

end

end Value

theorem Value.plainFields_mem {kvs : List (String × Value)} (h : plainFields kvs = true) {k : String}
    {v : Value} (hkv : (k, v) ∈ kvs) : v.plain = true := by
  induction kvs with
  | nil => cases hkv
  | cons kv kvs ih =>
    obtain ⟨k', v'⟩ := kv
    simp only [plainFields, Bool.and_eq_true] at h
    rcases List.mem_cons.mp hkv with heq | hkv
    · cases heq
      exact h.1
    · exact ih h.2 hkv

mutual

/-- `freeze_json`. -/
def freezeJson : Value → Value
  | .list xs => .tuple (freezeItems xs)
  | .tuple xs => .tuple (freezeItems xs)
  | .dict kvs => .proxy (freezeFields kvs)
  | .proxy kvs => .proxy (freezeFields kvs)
  | v => v

def freezeItems : List Value → List Value
  | [] => []
  | x :: xs => freezeJson x :: freezeItems xs

def freezeFields : List (String × Value) → List (String × Value)
  | [] => []
  | (k, v) :: kvs => (k, freezeJson v) :: freezeFields kvs

end

mutual

/-- `thaw_json`. -/
def thawJson : Value → Value
  | .list xs => .list (thawItems xs)
  | .tuple xs => .list (thawItems xs)
  | .dict kvs => .dict (thawFields kvs)
  | .proxy kvs => .dict (thawFields kvs)
  | v => v

def thawItems : List Value → List Value
  | [] => []
  | x :: xs => thawJson x :: thawItems xs

def thawFields : List (String × Value) → List (String × Value)
  | [] => []
  | (k, v) :: kvs => (k, thawJson v) :: thawFields kvs

end

/-- `freeze_mapping`: the entries of the frozen mapping. -/
def freezeMapping (kvs : List (String × Value)) : List (String × Value) := freezeFields kvs

mutual

/-- Thawing undoes freezing on plain data. -/
theorem thawJson_freezeJson : ∀ v : Value, v.plain = true → thawJson (freezeJson v) = v
  | .none, _ => rfl
  | .bool _, _ => rfl
  | .int _, _ => rfl
  | .float _, _ => rfl
  | .str _, _ => rfl
  | .list xs, h => by
    simp only [freezeJson, thawJson, thawItems_freezeItems xs (by simpa only [Value.plain] using h)]
  | .tuple xs, h => by simp [Value.plain] at h
  | .dict kvs, h => by
    simp only [freezeJson, thawJson, thawFields_freezeFields kvs (by simpa only [Value.plain] using h)]
  | .proxy kvs, h => by simp [Value.plain] at h

theorem thawItems_freezeItems : ∀ xs : List Value, Value.plainItems xs = true →
    thawItems (freezeItems xs) = xs
  | [], _ => rfl
  | x :: xs, h => by
    simp only [Value.plainItems, Bool.and_eq_true] at h
    simp only [freezeItems, thawItems, thawJson_freezeJson x h.1, thawItems_freezeItems xs h.2]

theorem thawFields_freezeFields : ∀ kvs : List (String × Value), Value.plainFields kvs = true →
    thawFields (freezeFields kvs) = kvs
  | [], _ => rfl
  | (k, v) :: kvs, h => by
    simp only [Value.plainFields, Bool.and_eq_true] at h
    simp only [freezeFields, thawFields, thawJson_freezeJson v h.1, thawFields_freezeFields kvs h.2]

end

mutual

/-- Freezing does not tell thawed or frozen data from what they were made of. -/
theorem freezeJson_thawJson : ∀ v : Value, freezeJson (thawJson v) = freezeJson v
  | .none => rfl
  | .bool _ => rfl
  | .int _ => rfl
  | .float _ => rfl
  | .str _ => rfl
  | .list xs => by simp only [thawJson, freezeJson, freezeItems_thawItems xs]
  | .tuple xs => by simp only [thawJson, freezeJson, freezeItems_thawItems xs]
  | .dict kvs => by simp only [thawJson, freezeJson, freezeFields_thawFields kvs]
  | .proxy kvs => by simp only [thawJson, freezeJson, freezeFields_thawFields kvs]

theorem freezeItems_thawItems : ∀ xs : List Value, freezeItems (thawItems xs) = freezeItems xs
  | [] => rfl
  | x :: xs => by simp only [thawItems, freezeItems, freezeJson_thawJson x, freezeItems_thawItems xs]

theorem freezeFields_thawFields : ∀ kvs : List (String × Value),
    freezeFields (thawFields kvs) = freezeFields kvs
  | [] => rfl
  | (k, v) :: kvs => by
    simp only [thawFields, freezeFields, freezeJson_thawJson v, freezeFields_thawFields kvs]

end

mutual

theorem freezeJson_freezeJson : ∀ v : Value, freezeJson (freezeJson v) = freezeJson v
  | .none => rfl
  | .bool _ => rfl
  | .int _ => rfl
  | .float _ => rfl
  | .str _ => rfl
  | .list xs => by simp only [freezeJson, freezeItems_freezeItems xs]
  | .tuple xs => by simp only [freezeJson, freezeItems_freezeItems xs]
  | .dict kvs => by simp only [freezeJson, freezeFields_freezeFields kvs]
  | .proxy kvs => by simp only [freezeJson, freezeFields_freezeFields kvs]

theorem freezeItems_freezeItems : ∀ xs : List Value, freezeItems (freezeItems xs) = freezeItems xs
  | [] => rfl
  | x :: xs => by simp only [freezeItems, freezeJson_freezeJson x, freezeItems_freezeItems xs]

theorem freezeFields_freezeFields : ∀ kvs : List (String × Value),
    freezeFields (freezeFields kvs) = freezeFields kvs
  | [] => rfl
  | (k, v) :: kvs => by
    simp only [freezeFields, freezeJson_freezeJson v, freezeFields_freezeFields kvs]

end

mutual

theorem Value.pyEq_refl : ∀ v : Value, v.pyEq v = true
  | .none => rfl
  | .bool _ => by simp [pyEq]
  | .int _ => by simp [pyEq]
  | .float _ => by simp [pyEq]
  | .str _ => by simp [pyEq]
  | .list xs => by simp only [pyEq]; exact pyEqs_refl xs
  | .tuple xs => by simp only [pyEq]; exact pyEqs_refl xs
  | .dict kvs => by
    simp only [pyEq, beq_self_eq_true, Bool.true_and]; exact pyFound_self kvs kvs (fun _ h => h)
  | .proxy kvs => by
    simp only [pyEq, beq_self_eq_true, Bool.true_and]; exact pyFound_self kvs kvs (fun _ h => h)

theorem Value.pyEqs_refl : ∀ xs : List Value, pyEqs xs xs = true
  | [] => rfl
  | x :: xs => by simp only [pyEqs, pyEq_refl x, pyEqs_refl xs, Bool.and_self]

theorem Value.pyFound_self : ∀ kvs kws : List (String × Value), (∀ kv ∈ kvs, kv ∈ kws) →
    pyFound kvs kws = true
  | [], _, _ => rfl
  | (k, v) :: kvs, kws, h => by
    simp only [pyFound, Bool.and_eq_true, List.any_eq_true]
    exact ⟨⟨(k, v), h _ List.mem_cons_self, by simp [pyEq_refl v]⟩,
      pyFound_self kvs kws (fun kv hkv => h kv (List.mem_cons_of_mem _ hkv))⟩

end

end AgentRuntime

import BcRuntime.Config.StoreRefinement

/-!
Bindings handed to the store one after another, as each of the three sources of
the configuration does. The last binding of a key is the one that counts, and
it counts before whatever the store held.
-/

namespace BcRuntime
open Fallible Run

/-- A key and a value handed to the store. -/
abbrev Binding := CString × CString

def lastValue (key : CString) (bindings : List Binding) : Option CString :=
  (bindings.filter fun binding => binding.1 = key).getLast?.map Prod.snd

@[simp] theorem lastValue_nil (key : CString) : lastValue key [] = none := rfl

theorem lastValue_append (key : CString) (first second : List Binding) :
    lastValue key (first ++ second) = (lastValue key second).or (lastValue key first) := by
  rw [lastValue, List.filter_append, List.getLast?_append, Option.map_or]
  rfl

theorem lastValue_singleton (key : CString) (binding : Binding) :
    lastValue key [binding] = if binding.1 = key then some binding.2 else none := by
  by_cases h : binding.1 = key <;> simp [lastValue, h]

theorem lastValue_isSome_iff (key : CString) (bindings : List Binding) :
    (lastValue key bindings).isSome ↔ key ∈ bindings.map Prod.fst := by
  rw [lastValue, Option.isSome_map, Option.isSome_iff_ne_none, ne_eq, List.getLast?_eq_none_iff,
    List.filter_eq_nil_iff]
  simp

/-- The bindings are in the store, over what it held before. -/
structure Loaded (bindings : List Binding) (m m' : Machine) : Prop extends SameOutput m m' where
  content : ∀ key, m'.store.content key = (lastValue key bindings).or (m.store.content key)
  valid : m.store.Valid → m'.store.Valid

theorem Untouched.loaded {m m' : Machine} (h : Untouched m m') : Loaded [] m m' where
  toSameOutput := h.toSameOutput
  content := fun key => by rw [h.content, lastValue_nil, Option.none_or]
  valid := h.valid

theorem Upserted.loaded {key value : CString} {m m' : Machine}
    (h : Upserted key (fun _ => value) value m m') : Loaded [(key, value)] m m' where
  toSameOutput := h.toSameOutput
  content := by
    intro k
    rw [h.content, lastValue_singleton]
    by_cases same : k = key
    · rw [if_pos same, if_pos same.symm]
      cases m.store.content key <;> rfl
    · rw [if_neg same, if_neg (Ne.symm same), Option.none_or]
  valid := h.valid

theorem Loaded.append {first second : List Binding} {m m' m'' : Machine}
    (h : Loaded first m m') (h' : Loaded second m' m'') : Loaded (first ++ second) m m'' where
  toSameOutput := h.toSameOutput.trans h'.toSameOutput
  content := fun key => by
    rw [h'.content, h.content, lastValue_append, Option.or_assoc]
  valid := fun valid => h'.valid (h.valid valid)

theorem Loaded.mem_keys_iff {bindings : List Binding} {m m' : Machine}
    (h : Loaded bindings m m') (key : CString) :
    key ∈ m'.store.keys ↔ key ∈ bindings.map Prod.fst ∨ key ∈ m.store.keys := by
  rw [mem_keys_iff_content, mem_keys_iff_content, h.content, ← lastValue_isSome_iff,
    Option.isSome_or, Bool.or_eq_true]

/-- A loop that loads what each of its texts asks for loads what they ask for together. -/
theorem loaded_of_each {host : Host} {body : CString → Run Unit} {loop : List CString → Run Unit}
    {binding : CString → Option Binding} (done : loop [] = pure ())
    (next : ∀ text texts, loop (text :: texts) = body text >>= fun _ => loop texts)
    (each : ∀ text m,
      wp (body text) (fun _ m' => Loaded (binding text).toList m m') (fun _ => False) host m)
    (texts : List CString) (m : Machine) :
    wp (loop texts) (fun _ m' => Loaded (texts.filterMap binding) m m') (fun _ => False) host m := by
  induction texts generalizing m with
  | nil =>
      rw [done]
      exact (Untouched.refl m).loaded
  | cons text texts ih =>
      rw [next, wp_bind, List.filterMap_eq_flatMap_toList, List.flatMap_cons,
        ← List.filterMap_eq_flatMap_toList]
      refine wp_mono (each text m) (fun _ m₁ first => ?_) fun _ h => h
      exact wp_mono (ih m₁) (fun _ _ rest => first.append rest) fun _ h => h

variable [BcCore]

/-- A set for each binding in order, up to the first that fails. -/
def setAll : List Binding → Run Unit
  | [] => pure ()
  | binding :: bindings => do
      configStoreSet binding.1 binding.2
      setAll bindings

theorem setAll_spec (host : Host) (m : Machine) (bindings : List Binding) :
    wp (setAll bindings) (fun _ m' => Loaded bindings m m')
      (fun _ => ¬ host.StoreCallsSucceed) host m := by
  induction bindings generalizing m with
  | nil => exact (Untouched.refl m).loaded
  | cons binding bindings ih =>
      rw [setAll, wp_bind]
      refine wp_mono (configStoreSet_spec host m binding.1 binding.2) (fun _ m₁ stored => ?_)
        fun _ refused => refused.failure
      exact wp_mono (ih m₁) (fun _ _ rest => stored.loaded.append rest) fun _ h => h

theorem setAll_run {host : Host} (store : host.StoreCallsSucceed) (bindings : List Binding)
    (m : Machine) : ∃ m', setAll bindings host m = (some (), m') ∧ Loaded bindings m m' := by
  obtain ⟨_, m', run, loaded⟩ := exists_run_of_wp
    (wp_mono (setAll_spec host m bindings) (fun _ _ h => h) fun _ failed => failed store)
  exact ⟨m', run, loaded⟩

end BcRuntime

import BcRuntime.Config.StoreRefinement

/-!
What a sequence of store calls leaves under one key: each call either does not
concern the key or says its next value.
-/

namespace BcRuntime

namespace StoreCall

/-- The key a call is about; the sort is about none. -/
def key? : StoreCall → Option CString
  | .set key _ => some key
  | .append key _ _ _ => some key
  | .sort => none

/-- The value of `key` after a call that found the value `old` there. -/
def update (key : CString) (old : Option CString) : StoreCall → Option CString
  | .set changed value => if key = changed then some value else old
  | .append changed value separator nonzero =>
      if key = changed then
        some (match old with
          | none => value
          | some old => old.join value separator nonzero)
      else old
  | .sort => old

theorem update_of_key?_ne {call : StoreCall} {key : CString} (h : call.key? ≠ some key)
    (old : Option CString) : call.update key old = old := by
  cases call with
  | set changed value => exact if_neg fun same => h (congrArg some same.symm)
  | append changed value separator nonzero =>
      exact if_neg fun same => h (congrArg some same.symm)
  | sort => rfl

theorem reflect_map (call : StoreCall) (reference : Reference) (key : CString) :
    (call.reflect reference).map key = call.update key (reference.map key) := by
  cases call with
  | set changed value => rfl
  | append changed value separator nonzero =>
      by_cases same : key = changed
      · subst same
        cases stored : reference.map key with
        | none => simp [reflect, Reference.assign, update, stored]
        | some old => simp [reflect, Reference.assign, update, stored]
      · simp only [reflect, Reference.assign, update, same, if_false]
  | sort => rfl

end StoreCall

def valueAfter (calls : List StoreCall) (key : CString) (old : Option CString) :
    Option CString :=
  calls.foldl (fun value call => call.update key value) old

section History
variable {key : CString}

theorem valueAfter_append (first second : List StoreCall) (old : Option CString) :
    valueAfter (first ++ second) key old = valueAfter second key (valueAfter first key old) :=
  List.foldl_append

theorem valueAfter_of_foreign {calls : List StoreCall}
    (foreign : ∀ call ∈ calls, call.key? ≠ some key) (old : Option CString) :
    valueAfter calls key old = old := by
  induction calls generalizing old with
  | nil => rfl
  | cons call calls ih =>
      have first := StoreCall.update_of_key?_ne (foreign call List.mem_cons_self) old
      have rest := ih (fun later mem => foreign later (List.mem_cons_of_mem _ mem)) old
      simpa only [valueAfter, List.foldl_cons, first] using rest

theorem foldl_reflect_map (calls : List StoreCall) (reference : Reference) :
    (calls.foldl (fun reference call => call.reflect reference) reference).map key =
      valueAfter calls key (reference.map key) := by
  induction calls generalizing reference with
  | nil => rfl
  | cons call calls ih =>
      simp only [List.foldl_cons, ih, StoreCall.reflect_map, valueAfter]

end History

end BcRuntime

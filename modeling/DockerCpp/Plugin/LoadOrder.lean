/-
  DockerCpp.Plugin.LoadOrder — `getLoadOrder` with its two tables of marks.

  `Plugin.Registry` takes the search of `Lib.Dfs` for `getLoadOrderUnsafe`. Here the two
  functions of the source, which have the same body, are written with the tables they
  keep: `visiting`, `visited` and the result are three local variables, a mark is set back
  when a plugin is done, and a plugin is looked up before its dependencies are walked
  through. The tables are the two lists of `Lib.Dfs` (`Shows`), so both searches end alike
  (`getLoadOrder_eq`).

  What it returns is a permutation of the registered names with every plugin after its
  registered dependencies (`load_order_topological`). It ends for every graph, and throws
  exactly if there is a cycle (`circular_dependency_iff`).
-/

import DockerCpp.Plugin.Initialization

namespace DockerCpp.Plugin

open Lib Relation

/-! ## The search of the source -/

/-- The local variables of `getLoadOrder`. `operator[]` of a table gives false for a name it
    does not have. -/
structure Marks where
  visited : Std.ExtTreeMap String Bool := ∅
  visiting : Std.ExtTreeMap String Bool := ∅
  result : List String := []

def circular (name : String) : Failure :=
  .error ⟨.circularDependency, "Circular dependency detected involving plugin: " ++ name⟩

/-- The loop over the dependencies of a plugin that is registered. -/
def visitDependencies (m : Plugins) (visit : String → Marks → Except Failure Marks) (name : String) (s : Marks) :
    Except Failure Marks :=
  match m[name]? with
  | some p => p.dependencies.foldlM (fun s dep => if m.contains dep then visit dep s else pure s) s
  | none => pure s

/-- The lambda `visit`, for calls nested at most `fuel` deep. -/
def visit (m : Plugins) : (fuel : Nat) → String → Marks → Except Failure Marks
  | 0, _, _ => .error .outOfFuel
  | fuel + 1, name, s =>
    if s.visiting.getD name false then .error (circular name)
    else if s.visited.getD name false then .ok s
    else do
      let s ← visitDependencies m (visit m fuel) name { s with visiting := s.visiting.insert name true }
      pure ⟨s.visited.insert name true, s.visiting.insert name false, s.result ++ [name]⟩

def loadOrder (fuel : Nat) (m : Plugins) (iteration : List String) : Except Failure (List String) := do
  let s ← iteration.foldlM (fun s name => if s.visited.getD name false then pure s else visit m fuel name s) ({} : Marks)
  pure s.result

/-- A path through the registered plugins meets none twice, but for the last. -/
def getLoadOrder (m : Plugins) (iteration : List String) : Except Failure (List String) :=
  loadOrder (m.size + 1) m iteration

/-! ## The tables are lists -/

/-- The tables hold what the search of `Lib.Dfs` keeps in lists. -/
structure Shows (s : Marks) (st : Dfs.St String) : Prop where
  visited : ∀ n, s.visited.getD n false = decide (n ∈ st.done)
  visiting : ∀ n, s.visiting.getD n false = decide (n ∈ st.visiting)
  result : s.result = st.done
  nodup : st.visiting.Nodup

def stopFailure : Dfs.Stop String → Failure
  | .cycle name => circular name
  | .outOfFuel => .outOfFuel

/-- Both searches go on, or both stop for the same reason. -/
inductive SameEnd : Except Failure Marks → Except (Dfs.Stop String) (Dfs.St String) → Prop
  | ok {s : Marks} {st : Dfs.St String} : Shows s st → SameEnd (.ok s) (.ok st)
  | error (e : Dfs.Stop String) : SameEnd (.error (stopFailure e)) (.error e)

variable {st : Dfs.St String} {g : String → Dfs.St String → Except (Dfs.Stop String) (Dfs.St String)}
  {f : String → Marks → Except Failure Marks} {s : Marks}
  {m : Plugins} {iteration : List String}

/-- A loop that visits the names that pass a test, against visits of the names that are
    left. -/
theorem loop_sameEnd {keep : String → Bool}
    (h : ∀ n s st, Shows s st → SameEnd (f n s) (g n st)) (names : List String)
    (hs : Shows s st) :
    SameEnd (names.foldlM (fun s n => if keep n then f n s else pure s) s)
      (Dfs.visitAll g (names.filter keep) st) := by
  induction names generalizing s st with
  | nil => exact .ok hs
  | cons n names ih =>
    rw [List.foldlM_cons]
    cases hk : keep n with
    | false =>
      rw [List.filter_cons_of_neg (by simp [hk])]
      exact ih hs
    | true =>
      rw [List.filter_cons_of_pos hk, if_pos rfl, Dfs.visitAll]
      have hn := h n s st hs
      generalize f n s = r, g n st = r' at hn
      cases hn with
      | ok hs' => exact ih hs'
      | error e => exact .error e

theorem Shows.enter (h : Shows s st) {name : String} (hn : name ∉ st.visiting) :
    Shows { s with visiting := s.visiting.insert name true } { st with visiting := name :: st.visiting } := by
  refine ⟨h.visited, fun n => ?_, h.result, List.nodup_cons.mpr ⟨hn, h.nodup⟩⟩
  have hv := h.visiting n
  by_cases hname : name = n
  · simp [hname]
  · simp [Std.ExtTreeMap.getD_insert, hname, Ne.symm hname, hv]

theorem Shows.leave (h : Shows s st) (name : String) :
    Shows ⟨s.visited.insert name true, s.visiting.insert name false, s.result ++ [name]⟩
      ⟨st.visiting.erase name, st.done ++ [name]⟩ := by
  refine ⟨fun n => ?_, fun n => ?_, by rw [h.result], h.nodup.erase name⟩
  · have hv := h.visited n
    by_cases hname : name = n
    · simp [hname]
    · simp [Std.ExtTreeMap.getD_insert, hname, Ne.symm hname, hv]
  · have hv := h.visiting n
    rw [Std.ExtTreeMap.getD_insert]
    by_cases hname : name = n
    · subst hname
      simp [h.nodup.not_mem_erase]
    · simp [hname, h.nodup.mem_erase_iff, Ne.symm hname, hv]

/-- The dependencies the source tests one by one are those `Lib.Dfs` is given. -/
theorem visitDependencies_sameEnd (h : ∀ n s st, Shows s st → SameEnd (f n s) (g n st)) (name : String)
    (hs : Shows s st) :
    SameEnd (visitDependencies m f name s) (Dfs.visitAll g (registeredDependencies m name) st) := by
  unfold visitDependencies registeredDependencies
  cases m[name]? with
  | none => exact .ok hs
  | some p => exact loop_sameEnd h p.dependencies hs

theorem visit_sameEnd (m : Plugins) (fuel : Nat) : ∀ (name : String) (s : Marks) (st : Dfs.St String), Shows s st →
    SameEnd (visit m fuel name s) (Dfs.visit (registeredDependencies m) fuel name st) := by
  induction fuel with
  | zero =>
    intro name s st _
    exact .error .outOfFuel
  | succ fuel ih =>
    intro name s st h
    unfold visit Dfs.visit
    rw [h.visiting, h.visited]
    by_cases hvis : name ∈ st.visiting
    · simp only [hvis, decide_true, if_true]
      exact .error (.cycle name)
    · by_cases hdone : name ∈ st.done
      · simp only [hvis, hdone, decide_true, decide_false, if_true, if_false, Bool.false_eq_true]
        exact .ok h
      · simp only [hvis, hdone, decide_false, if_false, Bool.false_eq_true]
        have hloop := visitDependencies_sameEnd (m := m) ih name (h.enter hvis)
        generalize visitDependencies m (visit m fuel) name _ = r, Dfs.visitAll _ _ _ = r' at hloop
        cases hloop with
        | ok hs => exact .ok (hs.leave name)
        | error e => exact .error e

theorem roots_sameEnd (m : Plugins) (fuel : Nat) (names : List String) (h : Shows s st) :
    SameEnd (names.foldlM (fun s name => if s.visited.getD name false then pure s else visit m fuel name s) s)
      (Dfs.visitAll (Dfs.visitRoot (registeredDependencies m) fuel) names st) := by
  induction names generalizing s st with
  | nil => exact .ok h
  | cons name names ih =>
    rw [List.foldlM_cons, Dfs.visitAll, h.visited, Dfs.visitRoot]
    by_cases hdone : name ∈ st.done
    · simp only [hdone, decide_true, if_true]
      exact ih h
    · simp only [hdone, decide_false, if_false, Bool.false_eq_true]
      have hn := visit_sameEnd m fuel name s st h
      generalize visit m fuel name s = r, Dfs.visit (registeredDependencies m) fuel name st = r' at hn
      cases hn with
      | ok hs => exact ih hs
      | error e => exact .error e

theorem loadOrder_eq (fuel : Nat) (m : Plugins) (iteration : List String) :
    loadOrder fuel m iteration =
      (Dfs.order (registeredDependencies m) fuel iteration).mapError stopFailure := by
  have h : Shows {} {} := ⟨fun n => by simp, fun n => by simp, rfl, List.nodup_nil⟩
  have hloop := roots_sameEnd m fuel iteration h
  unfold loadOrder Dfs.order
  revert hloop
  generalize iteration.foldlM (fun s name => if s.visited.getD name false then pure s else visit m fuel name s)
    ({} : Marks) = r
  generalize Dfs.visitAll (Dfs.visitRoot (registeredDependencies m) fuel) iteration {} = r'
  intro hloop
  cases hloop with
  | ok hs => exact congrArg Except.ok hs.result
  | error e => rfl

/-- The search with tables and the one with lists are the same function. -/
theorem getLoadOrder_eq (m : Plugins) (iteration : List String) :
    getLoadOrder m iteration = getLoadOrderUnsafe m iteration := by
  rw [getLoadOrder, loadOrder_eq, getLoadOrderUnsafe]
  rcases Dfs.order (registeredDependencies m) (m.size + 1) iteration with e | names
  · cases e with
    | cycle name => rfl
    | outOfFuel => rfl
  · rfl

/-! ## What it returns -/

/-- An edge of the graph of the registered plugins. -/
def DependsOn (m : Plugins) (n d : String) : Prop := ∃ p, m[n]? = some p ∧ d ∈ p.dependencies ∧ d ∈ m

theorem edge_eq (m : Plugins) : Dfs.Edge (registeredDependencies m) = DependsOn m := by
  funext n d
  exact propext mem_registeredDependencies

theorem acyclic_iff (m : Plugins) : Dfs.Acyclic (registeredDependencies m) ↔ ∀ n, ¬ TransGen (DependsOn m) n n := by
  rw [Dfs.Acyclic, edge_eq]

theorem DependsOn.registered {n d : String} (h : DependsOn m n d) : n ∈ m := by
  obtain ⟨p, hp, -⟩ := h
  exact Std.ExtTreeMap.mem_iff_isSome_getElem?.mpr (by simp [hp])

/-- A returned order has every registered name once, and each after its registered
    dependencies. -/
theorem load_order_topological (m : Plugins) (iteration r : List String) (hi : iteration.Perm m.keys)
    (h : getLoadOrder m iteration = .ok r) :
    r.Perm m.keys ∧ ∀ n d, DependsOn m n d → ∃ before after, r = before ++ n :: after ∧ d ∈ before := by
  rw [getLoadOrder_eq] at h
  obtain ⟨hsorted, hall⟩ := loadOrder_ok hi h
  refine ⟨?_, fun n d hnd => ?_⟩
  · rw [List.perm_ext_iff_of_nodup hsorted.nodup Std.ExtTreeMap.nodup_keys]
    intro n
    rw [hall, Std.ExtTreeMap.mem_keys]
  · exact hsorted.split ((hall n).mpr hnd.registered) (mem_registeredDependencies.mpr hnd)

theorem load_order_topological_chain :
    getLoadOrder chain ["metrics", "store", "log"] = .ok ["log", "store", "metrics"] ∧
      ["log", "store", "metrics"].Perm chain.keys ∧
      ∀ n d, DependsOn chain n d → ∃ before after, ["log", "store", "metrics"] = before ++ n :: after ∧ d ∈ before :=
  have h : getLoadOrder chain ["metrics", "store", "log"] = .ok ["log", "store", "metrics"] := by decide +kernel
  ⟨h, load_order_topological chain ["metrics", "store", "log"] _ (by decide +kernel) h⟩

/-! ## Cycles -/

theorem order_fails (hi : iteration.Perm m.keys) {fuel : Nat}
    (hfuel : m.size < fuel) {e : Dfs.Stop String} (h : Dfs.order (registeredDependencies m) fuel iteration = .error e) :
    ∃ n, e = .cycle n ∧ TransGen (DependsOn m) n n := by
  have hlen : m.keys.length < fuel := by rwa [Std.ExtTreeMap.length_keys]
  rw [← edge_eq]
  exact Dfs.order_error (registeredDependencies_closed m) (fun v hv => hi.mem_iff.mp hv) hlen h

theorem order_enough (hi : iteration.Perm m.keys) {fuel : Nat}
    (hfuel : m.size < fuel) : Dfs.order (registeredDependencies m) fuel iteration ≠ .error .outOfFuel := by
  intro h
  obtain ⟨n, he, -⟩ := order_fails hi hfuel h
  cases he

theorem getLoadOrder_fails (hi : iteration.Perm m.keys) {e : Failure}
    (h : getLoadOrder m iteration = .error e) : ∃ n, e = circular n ∧ TransGen (DependsOn m) n n := by
  rw [getLoadOrder, loadOrder_eq] at h
  cases ho : Dfs.order (registeredDependencies m) (m.size + 1) iteration with
  | ok names =>
    rw [ho] at h
    cases h
  | error stop =>
    obtain ⟨n, rfl, hcycle⟩ := order_fails hi (Nat.lt_succ_self m.size) ho
    rw [ho] at h
    exact ⟨n, (Except.error.inj h).symm, hcycle⟩

/-- A cycle keeps the search from returning. -/
theorem no_cycle_of_ok {iteration r : List String} (hi : iteration.Perm m.keys)
    (h : getLoadOrder m iteration = .ok r) (n : String) : ¬ TransGen (DependsOn m) n n := by
  rw [getLoadOrder_eq] at h
  obtain ⟨hsorted, hall⟩ := loadOrder_ok hi h
  intro hcycle
  obtain ⟨d, hnd, -⟩ := TransGen.head'_iff.mp hcycle
  rw [← edge_eq] at hcycle
  exact hsorted.no_cycle ((hall n).mpr hnd.registered) hcycle

/-- The search ends: nested calls deeper than the number of plugins do not occur. It fails
    only with the error for a plugin that is on a cycle, and fails iff there is a cycle. -/
theorem circular_dependency_iff (m : Plugins) (iteration : List String) (hi : iteration.Perm m.keys) :
    (∀ fuel, m.size < fuel → loadOrder fuel m iteration = getLoadOrder m iteration) ∧
      (∀ e, getLoadOrder m iteration = .error e → ∃ n, e = circular n ∧ TransGen (DependsOn m) n n) ∧
      ((∃ message, getLoadOrder m iteration = .error (.error ⟨.circularDependency, message⟩)) ↔
        ∃ n, TransGen (DependsOn m) n n) := by
  refine ⟨fun fuel hfuel => ?_, fun e he => getLoadOrder_fails hi he, ?_⟩
  · rw [getLoadOrder, loadOrder_eq, loadOrder_eq, Dfs.order_of_le hfuel (order_enough hi (Nat.lt_succ_self m.size))]
  · constructor
    · rintro ⟨message, he⟩
      obtain ⟨n, -, hcycle⟩ := getLoadOrder_fails hi he
      exact ⟨n, hcycle⟩
    · rintro ⟨n, hcycle⟩
      cases hr : getLoadOrder m iteration with
      | ok r => exact absurd hcycle (no_cycle_of_ok hi hr n)
      | error e =>
        obtain ⟨k, rfl, -⟩ := getLoadOrder_fails hi hr
        exact ⟨_, rfl⟩

/-- A plugin that needs itself through another one, and one that has nothing to do with
    them. -/
def loop : Plugins :=
  ((∅ : Plugins).insert "log" { dependencies := [] }).insert "store" { dependencies := ["cache"] }
    |>.insert "cache" { dependencies := ["store"] }

theorem circular_dependency_iff_loop :
    getLoadOrder loop ["log", "store", "cache"] = .error (circular "store") ∧
      (∀ fuel, loop.size < fuel →
        loadOrder fuel loop ["log", "store", "cache"] = getLoadOrder loop ["log", "store", "cache"]) ∧
      (∀ e, getLoadOrder loop ["log", "store", "cache"] = .error e →
        ∃ n, e = circular n ∧ TransGen (DependsOn loop) n n) ∧
      ((∃ message, getLoadOrder loop ["log", "store", "cache"] = .error (.error ⟨.circularDependency, message⟩)) ↔
        ∃ n, TransGen (DependsOn loop) n n) :=
  ⟨by decide +kernel, circular_dependency_iff loop ["log", "store", "cache"] (by decide +kernel)⟩

end DockerCpp.Plugin

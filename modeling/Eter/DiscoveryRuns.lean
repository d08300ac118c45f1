import Eter.DeclaredModules

/-!
# Runs of the discovery

A call of the search leaves in progress what it found in progress. It succeeds exactly on sound
files, and then the results are closed and hold what the file reaches; this is shown by induction on
the depth of the search, and for each call by induction on the declarations of the file.
-/

namespace Eter.Driver
open Eter.Parser Stateful Dependencies

variable {fs : FileMap} {n rc : ℕ} {p q : Path} {s s' s'' : DriverState}
  {targets : List (Option Path)}

/-! ### What a call finds -/

abbrev DriverState.keys (s : DriverState) : List Path := s.session.keys

def DriverState.strings (s : DriverState) : StringInterner := s.session.interner

/-- The search may be entered. -/
structure Ready (fs : FileMap) (s : DriverState) : Prop where
  null : HasNull s.strings
  nodup : (s.keys ++ s.inProgress).Nodup
  readable : ∀ b ∈ s.inProgress, (fs.read b).isSome

/-- The results so far are complete and sound, and every file was parsed once. -/
structure Searched (fs : FileMap) (s : DriverState) : Prop where
  closed : Closed (dependencies fs) s.keys
  sound : ∀ k ∈ s.keys, Sound (dependencies fs) k
  parsed : s.parsed.Perm (s.keys ++ s.inProgress)

/-! ### What a call leaves -/

/-- A result is that of a parse of the file, whose identifiers are still known. -/
def ParsedFrom (fs : FileMap) (strings : StringInterner) (entry : Path × ParseResult) : Prop :=
  ∃ source old report, fs.read entry.1 = some source ∧ HasNull old ∧
    reportSource source old = .ok report ∧ report.result = entry.2 ∧
    Knows report.interner strings

structure Kept (fs : FileMap) (s s' : DriverState) : Prop where
  inProgress : s'.inProgress = s.inProgress
  knows : Knows s.strings s'.strings
  keys : s.keys <+: s'.keys
  nodup : (s'.keys ++ s'.inProgress).Nodup
  returns : ∀ r ∈ s'.returns, r ∈ s.returns ∨ r.exit = r.entry
  results : ∀ e ∈ s'.session.results, e ∈ s.session.results ∨ ParsedFrom fs s'.strings e

/-- What came of the search for some files, `none` being one that is not there. -/
structure Outcome (fs : FileMap) (targets : List (Option Path)) (s : DriverState) (rc : ℕ)
    (s' : DriverState) : Prop where
  closed : Closed (dependencies fs) s'.keys
  sound : ∀ k ∈ s'.keys, Sound (dependencies fs) k
  returns : ∀ r ∈ s'.returns, r ∈ s.returns ∨ Complete (dependencies fs) r.keys
  found : rc = 0 → none ∉ targets ∧ (∀ q, some q ∈ targets → q ∈ s'.keys) ∧
    (∀ k ∈ s'.keys, k ∈ s.keys ∨ ∃ q, some q ∈ targets ∧ Reaches (dependencies fs) q k) ∧
    s'.parsed.Perm (s'.keys ++ s'.inProgress)
  missed : rc ≠ 0 → none ∈ targets ∨ ∃ q, some q ∈ targets ∧ ¬ Sound (dependencies fs) q

/-- A call that came back. -/
structure Came (fs : FileMap) (targets : List (Option Path)) (s : DriverState) (rc : ℕ)
    (s' : DriverState) : Prop where
  kept : Kept fs s s'
  outcome : Room s'.strings → Searched fs s →
    (∀ b ∈ s.inProgress, ∀ q, some q ∈ targets →
      Relation.TransGen (DependsOn (dependencies fs)) b q) → Outcome fs targets s rc s'

theorem ParsedFrom.mono {strings strings' : StringInterner} {entry : Path × ParseResult}
    (h : ParsedFrom fs strings entry) (hknows : Knows strings strings') :
    ParsedFrom fs strings' entry := by
  obtain ⟨source, old, report, hread, hnull, hreport, hresult, hold⟩ := h
  exact ⟨source, old, report, hread, hnull, hreport, hresult, hold.trans hknows⟩

theorem Kept.trans (h : Kept fs s s') (h' : Kept fs s' s'') : Kept fs s s'' where
  inProgress := h'.inProgress.trans h.inProgress
  knows := h.knows.trans h'.knows
  keys := h.keys.trans h'.keys
  nodup := h'.nodup
  returns r hr := (h'.returns r hr).elim (fun hr => h.returns r hr) Or.inr
  results e he := (h'.results e he).elim
    (fun he => (h.results e he).imp_right fun hp => hp.mono h'.knows) Or.inr

theorem Ready.kept (h : Ready fs s) (hk : Kept fs s s') : Ready fs s' where
  null := hk.knows _ _ h.null
  nodup := hk.nodup
  readable b hb := h.readable b (hk.inProgress ▸ hb)

theorem Outcome.searched (h : Outcome fs targets s 0 s') : Searched fs s' :=
  ⟨h.closed, h.sound, (h.found rfl).2.2.2⟩

/-- Nothing was done. -/
theorem Kept.refl (h : Ready fs s) : Kept fs s s :=
  ⟨rfl, .refl _, List.prefix_rfl, h.nodup, fun _ hr => Or.inl hr, fun _ he => Or.inl he⟩

theorem Outcome.stay (h : Searched fs s) (hfound : rc = 0 → none ∉ targets ∧
      ∀ q, some q ∈ targets → q ∈ s.keys)
    (hmissed : rc ≠ 0 → none ∈ targets ∨
      ∃ q, some q ∈ targets ∧ ¬ Sound (dependencies fs) q) : Outcome fs targets s rc s where
  closed := h.closed
  sound := h.sound
  returns _ hr := Or.inl hr
  found hrc := ⟨(hfound hrc).1, (hfound hrc).2, fun _ hk => Or.inl hk, h.parsed⟩
  missed := hmissed

/-- A search that goes on after the first file was found. -/
theorem Outcome.cons (h : Outcome fs [some q] s 0 s') (h' : Outcome fs targets s' rc s'')
    (hkeys : s'.keys <+: s''.keys) : Outcome fs (some q :: targets) s rc s'' where
  closed := h'.closed
  sound := h'.sound
  returns r hr := (h'.returns r hr).elim (fun hr => h.returns r hr) Or.inr
  found hrc := by
    obtain ⟨-, hq, hnew, -⟩ := h.found rfl
    obtain ⟨hnone, hin, hnew', hparsed⟩ := h'.found hrc
    refine ⟨by simpa using hnone, ?_, ?_, hparsed⟩
    · intro x hx
      rcases List.mem_cons.mp hx with hx | hx
      · cases hx
        exact hkeys.subset (hq q (List.mem_singleton_self _))
      · exact hin x hx
    · intro k hk
      rcases hnew' k hk with hk | ⟨x, hx, hreach⟩
      · rcases hnew k hk with hk | ⟨x, hx, hreach⟩
        · exact Or.inl hk
        · cases List.mem_singleton.mp hx
          exact Or.inr ⟨q, List.mem_cons_self .., hreach⟩
      · exact Or.inr ⟨x, List.mem_cons_of_mem _ hx, hreach⟩
  missed hrc := by
    rcases h'.missed hrc with hnone | ⟨x, hx, hbad⟩
    · exact Or.inl (List.mem_cons_of_mem _ hnone)
    · exact Or.inr ⟨x, List.mem_cons_of_mem _ hx, hbad⟩

/-- A search that ends with the first file, which is not sound. -/
theorem Outcome.first (h : Outcome fs [some q] s rc s') (hrc : rc ≠ 0) :
    Outcome fs (some q :: targets) s rc s' where
  closed := h.closed
  sound := h.sound
  returns := h.returns
  found h0 := absurd h0 hrc
  missed _ := by
    rcases h.missed hrc with hnone | ⟨x, hx, hbad⟩
    · cases List.mem_singleton.mp hnone
    · cases List.mem_singleton.mp hx
      exact Or.inr ⟨q, List.mem_cons_self .., hbad⟩

/-! ### The loop over the children -/

/-- The files that the nodes declare, resolved from a directory. -/
def targetsOf (fs : FileMap) (dir : Path) (pool : NodePool) (strings : StringInterner)
    (nodes : List NodeIndex) : List (Option Path) :=
  (moduleNames pool strings nodes).map (fs.resolve dir)

/-- Each node is there, and a file module has a name. -/
def Named (pool : NodePool) (strings : StringInterner) (nodes : List NodeIndex) : Prop :=
  ∀ c ∈ nodes, ∃ d, pool.get? c = some d ∧
    (d.kind = .ModDeclFile → ∃ name, strings.get? d.payload = some name)

/-- What the driver reads as a name is an identifier, and the right one if there is room. -/
theorem getName_payload {d : NodeData} {strings : StringInterner} {name : Bytes}
    (hname : strings.get? d.payload = some name) (hknows : Knows strings s.strings) :
    ∃ text, getName (NodePool.payloadStr d.payload) s = .ok (text, s) ∧
      (Room s.strings → text = name) := by
  have hlt : NodePool.payloadStr d.payload < s.strings.strings.length :=
    (Nat.mod_le _ _).trans_lt (List.getElem?_eq_some_iff.mp (hknows _ _ hname)).1
  have hget : s.session.interner.get? (NodePool.payloadStr d.payload) =
      some (s.strings.strings[NodePool.payloadStr d.payload]) := List.getElem?_eq_getElem hlt
  refine ⟨s.strings.strings[NodePool.payloadStr d.payload], ?_, fun hroom => ?_⟩
  · unfold getName
    rw [hget]
  · exact Option.some.inj (hget.symm.trans (get?_payloadStr hname hknows hroom))

/-- The search from any file, at a depth. -/
def Searches (fs : FileMap) (n : ℕ) (rec : Path → DriverM ℕ) : Prop :=
  ∀ q s, Ready fs s → fs.length < n + s.inProgress.length →
    Yields (rec q) (Came fs [some q] s) s

theorem visitChildren_spec {rec : Path → DriverM ℕ} (hrec : Searches fs n rec) (dir : Path)
    (pool : NodePool) {strings : StringInterner} {nodes : List NodeIndex}
    (hnamed : Named pool strings nodes) (h : Ready fs s)
    (hn : fs.length < n + s.inProgress.length) (hknows : Knows strings s.strings) :
    Yields (visitChildren fs rec dir pool nodes)
      (Came fs (targetsOf fs dir pool strings nodes) s) s := by
  induction nodes generalizing s with
  | nil =>
    refine Yields.pure ⟨.refl h, fun _ hs _ => .stay hs (fun _ => ?_) fun hrc => absurd rfl hrc⟩
    exact ⟨List.not_mem_nil, fun q hq => absurd hq List.not_mem_nil⟩
  | cons c nodes ih =>
    obtain ⟨d, hd, hname⟩ := hnamed c (List.mem_cons_self ..)
    have hrest : Named pool strings nodes := fun x hx => hnamed x (List.mem_cons_of_mem _ hx)
    unfold visitChildren
    simp only [hd]
    split
    · next hkind =>
      have htargets : targetsOf fs dir pool strings (c :: nodes) =
          targetsOf fs dir pool strings nodes := by
        simp [targetsOf, moduleNames, hd, hkind]
      rw [htargets]
      exact ih hrest h hn hknows
    · next hkind =>
      rw [not_not] at hkind
      obtain ⟨name, hname⟩ := hname hkind
      have htargets : targetsOf fs dir pool strings (c :: nodes) =
          fs.resolve dir name :: targetsOf fs dir pool strings nodes := by
        simp [targetsOf, moduleNames, hd, hkind, hname]
      rw [htargets]
      obtain ⟨text, hget, hright⟩ := getName_payload hname hknows
      refine Yields.read hget ?_
      cases hres : fs.resolve dir text with
      | none =>
        refine Yields.pure ⟨.refl h, fun hroom hs _ => .stay hs (fun h1 => absurd h1 (by decide)) fun _ => ?_⟩
        rw [← hright hroom, hres]
        exact Or.inl (List.mem_cons_self ..)
      | some q =>
        refine (hrec q s h hn).bind fun rc s₁ hcame => ?_
        have hroom₁ : Room s₁.strings → fs.resolve dir name = some q := by
          intro hroom
          rw [← hright (hcame.kept.knows.room hroom), hres]
        split
        · next hrc =>
          refine Yields.pure ⟨hcame.kept, fun hroom hs hbusy => ?_⟩
          rw [hroom₁ hroom] at hbusy ⊢
          refine (hcame.outcome hroom hs fun b hb x hx => ?_).first hrc
          exact hbusy b hb x (List.mem_singleton.mp hx ▸ List.mem_cons_self ..)
        · next hrc =>
          rw [not_not] at hrc
          subst hrc
          have hkept := hcame.kept
          refine (ih hrest (h.kept hkept) (by rwa [hkept.inProgress])
            (hknows.trans hkept.knows)).mono fun rc s₂ hcame₂ => ?_
          refine ⟨hkept.trans hcame₂.kept, fun hroom hs hbusy => ?_⟩
          have hroom₁' := hcame₂.kept.knows.room hroom
          rw [hroom₁ hroom₁'] at hbusy ⊢
          have hfirst := hcame.outcome hroom₁' hs fun b hb x hx =>
            hbusy b hb x (List.mem_singleton.mp hx ▸ List.mem_cons_self ..)
          refine hfirst.cons (hcame₂.outcome hroom hfirst.searched fun b hb x hx => ?_)
            hcame₂.kept.keys
          exact hbusy b (hkept.inProgress ▸ hb) x (List.mem_cons_of_mem _ hx)

/-! ### A file -/

/-- No more files are in progress than there are. -/
theorem Ready.length_le (h : Ready fs s) : s.inProgress.length ≤ fs.length := by
  have hsub : s.inProgress ⊆ fs.map Prod.fst := by
    intro b hb
    obtain ⟨text, htext⟩ := Option.isSome_iff_exists.mp (h.readable b hb)
    obtain ⟨before, behind, hfs, -⟩ := List.lookup_eq_some_iff.mp htext
    rw [hfs]
    simp
  have hlen := ((List.nodup_append.mp h.nodup).2.1.subperm hsub).length_le
  rwa [List.length_map] at hlen

/-- The state in which the children of a file are visited. -/
def entered (s : DriverState) (q : Path) (report : FileReport) : DriverState :=
  { session := { s.session with interner := report.interner }
    inProgress := q :: s.inProgress
    parsed := s.parsed ++ [q]
    returns := s.returns }

/-- The state in which a call returns. -/
def left (s : DriverState) (q : Path) (rc : ℕ) (result : ParseResult) : DriverState :=
  { session := if rc = 0 then { s.session with results := s.session.results ++ [(q, result)] }
      else s.session
    inProgress := s.inProgress.erase q
    parsed := s.parsed
    returns := s.returns }

theorem parseOpened_yields {rec : Path → DriverM ℕ} {source : Bytes} {report : FileReport}
    {Q : ℕ → DriverState → Prop} (hreport : reportSource source s.strings = .ok report)
    (h : Yields (visitChildren fs rec (parentPath q) report.result.pool
      (report.result.pool.childrenOf report.result.root))
      (fun rc s' => q ∉ s'.keys ∧ Q rc (left s' q rc report.result)) (entered s q report)) :
    Yields (parseOpened fs rec q source) Q s := by
  have hparse : parseSource q source s = .ok (report.result,
      { s with
        session := { s.session with interner := report.interner }
        parsed := s.parsed ++ [q] }) := by
    have hreport : reportSource source s.session.interner = .ok report := hreport
    unfold parseSource
    rw [hreport]
  refine Yields.bind (R := fun a t => a = report.result ∧ t = _) ⟨_, _, hparse, rfl, rfl⟩ ?_
  rintro _ _ ⟨rfl, rfl⟩
  refine Yields.bind (R := fun _ t => t = entered s q report) ⟨(), _, rfl, rfl⟩ ?_
  rintro - _ rfl
  refine h.bind fun rc s' ⟨hq, hQ⟩ => ?_
  refine Yields.bind (R := fun _ t => ({ t with inProgress := t.inProgress.erase q } : DriverState) =
    left s' q rc report.result) ?_ fun _ t ht => ⟨rc, _, rfl, ht ▸ hQ⟩
  unfold storeIf
  split
  · next hrc =>
    have hkeys : ¬ s'.session.keys.contains q = true := fun h => hq (List.contains_iff_mem.mp h)
    refine ⟨(), _, rfl, ?_⟩
    rw [if_neg hkeys, hrc]
    rfl
  · next hrc =>
    refine ⟨(), _, rfl, ?_⟩
    unfold left
    rw [if_neg hrc]

theorem left_strings (rc : ℕ) (result : ParseResult) :
    (left s q rc result).strings = s.strings := by
  unfold left DriverState.strings
  split <;> rfl

theorem left_keys (rc : ℕ) (result : ParseResult) :
    (left s q rc result).keys = if rc = 0 then s.keys ++ [q] else s.keys := by
  unfold left DriverState.keys PackSession.keys
  split <;> simp

/-- What a file's declarations name is what the file depends on. -/
theorem dependencies_of_report {source : Bytes} {report : FileReport} (h : Ready fs s)
    (hread : fs.read q = some source) (hreport : reportSource source s.strings = .ok report) :
    dependencies fs q = some (targetsOf fs (parentPath q) report.result.pool report.interner
      (report.result.pool.childrenOf report.result.root)) := by
  unfold dependencies targetsOf
  rw [hread, Option.map_some, declaredModules_eq h.null hreport]

/-- What was found behind the declarations of a file makes the file itself found. -/
theorem Outcome.file {report : FileReport}
    (hdeps : dependencies fs q = some targets) (hq : q ∉ s'.keys)
    (hprogress : s'.inProgress = q :: s.inProgress)
    (h : Outcome fs targets (entered s q report) rc s') :
    Outcome fs [some q] s rc (left s' q rc report.result) := by
  have hkeys := left_keys (s := s') (q := q) rc report.result
  have hreturns : ∀ r ∈ (left s' q rc report.result).returns,
      r ∈ s.returns ∨ Complete (dependencies fs) r.keys := h.returns
  by_cases hrc : rc = 0
  · obtain ⟨hnone, hin, hnew, hparsed⟩ := h.found hrc
    rw [if_pos hrc] at hkeys
    have hall : ∀ x, DependsOn (dependencies fs) q x → x ∈ s'.keys := by
      rintro x ⟨ds, hds, hx⟩
      rw [hdeps] at hds
      cases hds
      exact hin x hx
    have hsound : Sound (dependencies fs) q := sound_of_dependencies hdeps hnone
      (fun x hx => h.sound x (hin x hx)) (h.closed.not_on_cycle hq hall)
    refine ⟨?_, ?_, hreturns, fun _ => ⟨?_, ?_, ?_, ?_⟩, fun hne => absurd hrc hne⟩
    · rw [hkeys]
      exact h.closed.concat hall
    · rw [hkeys]
      intro k hk
      rcases List.mem_append.mp hk with hk | hk
      · exact h.sound k hk
      · cases List.mem_singleton.mp hk
        exact hsound
    · simp
    · intro x hx
      cases List.mem_singleton.mp hx
      rw [hkeys]
      exact List.mem_append_right _ (List.mem_singleton_self _)
    · rw [hkeys]
      intro k hk
      rcases List.mem_append.mp hk with hk | hk
      · rcases hnew k hk with hk | ⟨x, hx, hreach⟩
        · exact Or.inl hk
        · exact Or.inr ⟨q, List.mem_singleton_self _, .head ⟨targets, hdeps, hx⟩ hreach⟩
      · cases List.mem_singleton.mp hk
        exact Or.inr ⟨q, List.mem_singleton_self _, .refl⟩
    · rw [hkeys]
      show s'.parsed.Perm (s'.keys ++ [q] ++ s'.inProgress.erase q)
      rw [hprogress] at hparsed
      rw [hprogress, List.erase_cons_head, List.append_assoc]
      exact hparsed
  · rw [if_neg hrc] at hkeys
    refine ⟨hkeys ▸ h.closed, hkeys ▸ h.sound, hreturns, fun h0 => absurd h0 hrc, fun _ => ?_⟩
    refine Or.inr ⟨q, List.mem_singleton_self _, fun hsound => ?_⟩
    rcases h.missed hrc with hnone | ⟨x, hx, hbad⟩
    · obtain ⟨ds, hds, hall⟩ := hsound.resolved q .refl
      rw [hdeps] at hds
      cases hds
      exact hall hnone
    · exact hbad (hsound.of_dependsOn ⟨targets, hdeps, hx⟩)

theorem left_results (rc : ℕ) (result : ParseResult) :
    (left s q rc result).session.results =
      if rc = 0 then s.session.results ++ [(q, result)] else s.session.results := by
  unfold left
  split <;> rfl

theorem Kept.file {source : Bytes} {report : FileReport} (hready : Ready fs s)
    (hread : fs.read q = some source) (hreport : reportSource source s.strings = .ok report)
    (h : Kept fs (entered s q report) s') : Kept fs s (left s' q rc report.result) := by
  have hprogress : s'.inProgress = q :: s.inProgress := h.inProgress
  have hback : (left s' q rc report.result).inProgress = s.inProgress := by
    show s'.inProgress.erase q = s.inProgress
    rw [hprogress, List.erase_cons_head]
  have hnodup := h.nodup
  rw [hprogress, List.nodup_middle] at hnodup
  have hkeys := left_keys (s := s') (q := q) rc report.result
  have hstrings := left_strings (s := s') (q := q) rc report.result
  refine ⟨hback, ?_, ?_, ?_, h.returns, ?_⟩
  · rw [hstrings]
    exact (reportSource_knows hreport).trans h.knows
  · have hold : s.keys <+: s'.keys := h.keys
    rw [hkeys]
    split
    · exact hold.trans (List.prefix_append _ _)
    · exact hold
  · rw [hback, hkeys]
    split
    · rw [List.append_assoc, List.singleton_append, List.nodup_middle]
      exact hnodup
    · exact (List.nodup_cons.mp hnodup).2
  · have hold : ∀ e ∈ s'.session.results,
        e ∈ s.session.results ∨ ParsedFrom fs s'.strings e := h.results
    rw [hstrings, left_results]
    intro e he
    split at he
    · rcases List.mem_append.mp he with he | he
      · exact hold e he
      · cases List.mem_singleton.mp he
        exact Or.inr ⟨source, s.strings, report, hread, hready.null, hreport, rfl, h.knows⟩
    · exact hold e he

theorem parseOpened_spec {rec : Path → DriverM ℕ} (hrec : Searches fs n rec) (h : Ready fs s)
    {source : Bytes} (hread : fs.read q = some source) (hkeys : q ∉ s.keys)
    (hbusy : q ∉ s.inProgress) (hn : fs.length ≤ n + s.inProgress.length) :
    Yields (parseOpened fs rec q source) (Came fs [some q] s) s := by
  obtain ⟨report, hreport⟩ : ∃ report, reportSource source s.strings = .ok report := by
    obtain ⟨report, -, hreport, -⟩ := reportSource_parse source s.strings
    exact ⟨report, hreport⟩
  have hdeps := dependencies_of_report h hread hreport
  have hknows : Knows s.strings report.interner := reportSource_knows hreport
  have hready : Ready fs (entered s q report) := by
    refine ⟨hknows _ _ h.null, ?_, ?_⟩
    · show (s.keys ++ q :: s.inProgress).Nodup
      rw [List.nodup_middle]
      exact List.nodup_cons.mpr ⟨by simp [hkeys, hbusy], h.nodup⟩
    · intro b hb
      rcases List.mem_cons.mp hb with rfl | hb
      · rw [hread]
        rfl
      · exact h.readable b hb
  have hnamed : Named report.result.pool report.interner
      (report.result.pool.childrenOf report.result.root) := by
    intro c hc
    obtain ⟨d, hd⟩ := reportSource_children hreport c hc
    exact ⟨d, hd, module_named h.null hreport hd⟩
  refine parseOpened_yields hreport ?_
  refine (visitChildren_spec hrec (parentPath q) report.result.pool hnamed hready
    (by show fs.length < n + (s.inProgress.length + 1); omega)
    (.refl _)).mono fun rc s₁ hcame => ?_
  have hkept := hcame.kept
  have hprogress : s₁.inProgress = q :: s.inProgress := hkept.inProgress
  have hnodup := hkept.nodup
  rw [hprogress, List.nodup_middle] at hnodup
  have hq : q ∉ s₁.keys := fun hmem =>
    (List.nodup_cons.mp hnodup).1 (List.mem_append_left _ hmem)
  refine ⟨hq, hkept.file h hread hreport, fun hroom hs hbusy => ?_⟩
  rw [left_strings] at hroom
  have hsearched : Searched fs (entered s q report) := by
    refine ⟨hs.closed, hs.sound, ?_⟩
    show (s.parsed ++ [q]).Perm (s.keys ++ q :: s.inProgress)
    refine (List.perm_append_singleton q s.parsed).trans ?_
    exact (hs.parsed.cons q).trans List.perm_middle.symm
  refine (hcame.outcome hroom hsearched ?_).file hdeps hq hprogress
  intro b hb x hx
  rcases List.mem_cons.mp hb with rfl | hb
  · exact .single ⟨_, hdeps, hx⟩
  · exact (hbusy b hb q (List.mem_singleton_self _)).tail ⟨_, hdeps, hx⟩

/-- What a call leaves is kept when its return is noted down. -/
theorem Came.returning {m : DriverM ℕ} (h : Yields m (Came fs targets s) s) :
    Yields (returning m) (Came fs targets s) s := by
  obtain ⟨rc, s', hm, hcame⟩ := h
  refine ⟨rc, { s' with returns := s'.returns ++
    [⟨s.inProgress, s'.inProgress, s'.session.keys⟩] }, ?_, ?_, ?_⟩
  · unfold Driver.returning
    rw [hm]
  · have hkept := hcame.kept
    refine ⟨hkept.inProgress, hkept.knows, hkept.keys, hkept.nodup, fun r hr => ?_,
      hkept.results⟩
    rcases List.mem_append.mp hr with hr | hr
    · exact hkept.returns r hr
    · cases List.mem_singleton.mp hr
      exact Or.inr hkept.inProgress
  · intro hroom hs hbusy
    have hout := hcame.outcome hroom hs hbusy
    refine ⟨hout.closed, hout.sound, fun r hr => ?_, hout.found, hout.missed⟩
    rcases List.mem_append.mp hr with hr | hr
    · exact hout.returns r hr
    · cases List.mem_singleton.mp hr
      exact Or.inr (hout.closed.complete hout.sound)

theorem parseFile_spec (fs : FileMap) (n : ℕ) : Searches fs n (parseFile fs n) := by
  induction n with
  | zero =>
    intro q s h hn
    have hlen := h.length_le
    omega
  | succ n ih =>
    intro q s h hn
    refine Came.returning ?_
    refine Yields.read (a := s.session.keys.contains q) rfl ?_
    by_cases hkeys : q ∈ s.session.keys
    · rw [if_pos (List.contains_iff_mem.mpr hkeys)]
      refine Yields.pure ⟨.refl h, fun _ hs _ => .stay hs (fun _ => ⟨by simp, fun x hx => ?_⟩)
        fun hrc => absurd rfl hrc⟩
      cases List.mem_singleton.mp hx
      exact hkeys
    rw [if_neg (by simpa using hkeys)]
    refine Yields.read (a := s.inProgress.contains q) rfl ?_
    by_cases hprogress : q ∈ s.inProgress
    · -- the file is reached from itself
      rw [if_pos (List.contains_iff_mem.mpr hprogress)]
      refine Yields.pure ⟨.refl h, fun _ hs hbusy => .stay hs (fun h1 => absurd h1 (by decide))
        fun _ => Or.inr ⟨q, List.mem_singleton_self _, fun hsound => ?_⟩⟩
      exact hsound.not_on_cycle (hbusy q hprogress q (List.mem_singleton_self _))
    rw [if_neg (by simpa using hprogress)]
    cases hread : fs.read q with
    | none =>
      refine Yields.pure ⟨.refl h, fun _ hs _ => .stay hs (fun h1 => absurd h1 (by decide))
        fun _ => Or.inr ⟨q, List.mem_singleton_self _, fun hsound => ?_⟩⟩
      obtain ⟨ds, hds, -⟩ := hsound.resolved q .refl
      unfold dependencies at hds
      rw [hread] at hds
      cases hds
    | some source => exact parseOpened_spec ih h hread hkeys hprogress (by omega)

/-! ### The search from a root -/

theorem ready_start (fs : FileMap) : Ready fs .start :=
  ⟨rfl, List.nodup_nil, fun _ hb => absurd hb List.not_mem_nil⟩

theorem searched_start (fs : FileMap) : Searched fs .start where
  closed _ hp := absurd hp List.not_mem_nil
  sound _ hp := absurd hp List.not_mem_nil
  parsed := .refl _

theorem Outcome.sound_iff (h : Outcome fs [some p] s rc s') :
    rc = 0 ↔ Sound (dependencies fs) p := by
  refine ⟨fun hrc => ?_, fun hsound => ?_⟩
  · exact h.sound p ((h.found hrc).2.1 p (List.mem_singleton_self _))
  · by_contra hrc
    rcases h.missed hrc with hnone | ⟨q, hq, hbad⟩
    · exact absurd (List.mem_singleton.mp hnone) (by simp)
    · cases List.mem_singleton.mp hq
      exact hbad hsound

theorem Outcome.reached (h : Outcome fs [some p] .start 0 s) (q : Path) :
    q ∈ s.keys ↔ Reaches (dependencies fs) p q := by
  obtain ⟨-, hin, hnew, -⟩ := h.found rfl
  refine ⟨fun hq => ?_, fun hreach => ?_⟩
  · rcases hnew q hq with hq | ⟨r, hr, hreach⟩
    · exact absurd hq List.not_mem_nil
    · cases List.mem_singleton.mp hr
      exact hreach
  · exact h.closed.reaches (hin p (List.mem_singleton_self _)) hreach

/-- Discovery is a correct depth-first search. The driver reads a name through 30 bits, which is
room for the identifiers as long as the session has at most `2 ^ 30` of them. -/
theorem parseFile_correct (fs : FileMap) (root : Path) {n : ℕ} (hn : fs.length < n) :
    ∃ rc s, parseFile fs n root .start = .ok (rc, s) ∧
      s.inProgress = [] ∧ (∀ r ∈ s.returns, r.exit = r.entry) ∧
      (s.session.interner.strings.length ≤ 2 ^ 30 →
        (rc = 0 ↔ Sound (dependencies fs) root) ∧
        (rc = 0 → (∀ p, p ∈ s.keys ↔ Reaches (dependencies fs) root p) ∧
          s.keys.Nodup ∧ s.parsed.Perm s.keys) ∧
        (∀ r ∈ s.returns, Complete (dependencies fs) r.keys)) := by
  obtain ⟨rc, s, hrun, hkept, hout⟩ := parseFile_spec fs n root .start (ready_start fs) hn
  have hprogress : s.inProgress = [] := hkept.inProgress
  refine ⟨rc, s, hrun, hprogress, fun r hr => ?_, fun hlen => ?_⟩
  · exact (hkept.returns r hr).resolve_left List.not_mem_nil
  have h := hout (room_of_length hlen) (searched_start fs) fun b hb => absurd hb List.not_mem_nil
  refine ⟨h.sound_iff, fun hrc => ?_, fun r hr => ?_⟩
  · subst hrc
    have hnodup := hkept.nodup
    have hparsed := (h.found rfl).2.2.2
    rw [hprogress, List.append_nil] at hparsed hnodup
    exact ⟨h.reached, hnodup, hparsed⟩
  · exact (h.returns r hr).resolve_left List.not_mem_nil

/-- A pack of two files. -/
def twoFiles : FileMap := [(ascii "r.et", ascii "mod a;"), (ascii "a.et", ascii "fn f() {}")]

/-- A pack in a directory: one module is in a file beside the root, the other in a directory. -/
def nestedFiles : FileMap := [(ascii "src/r.et", ascii "mod a; mod b;"),
  (ascii "src/a.et", ascii "fn f() {}"), (ascii "src/b/mod.et", ascii "mod c;"),
  (ascii "src/b/c.et", ascii "fn g() {}")]

theorem parseFile_correct_nested : ∃ s,
    parseFile nestedFiles 5 (ascii "src/r.et") .start = .ok (0, s) ∧
    Sound (dependencies nestedFiles) (ascii "src/r.et") ∧ s.keys.Nodup ∧
    (∀ p, p ∈ s.keys ↔ Reaches (dependencies nestedFiles) (ascii "src/r.et") p) ∧
    s.keys.length = 4 ∧
    ∀ r ∈ s.returns, Complete (dependencies nestedFiles) r.keys := by
  obtain ⟨rc, s, hrun, -, -, h⟩ :=
    parseFile_correct nestedFiles (ascii "src/r.et") (n := 5) (by decide)
  have hfacts : (parseFile nestedFiles 5 (ascii "src/r.et") .start).toOption.any (fun r =>
      decide (r.1 = 0 ∧ r.2.keys.length = 4 ∧
        r.2.session.interner.strings.length ≤ 2 ^ 30)) = true := by
    decide +kernel
  rw [hrun] at hfacts
  obtain ⟨rfl, hlength, hlen⟩ := of_decide_eq_true hfacts
  obtain ⟨hsound, hkeys, hreturns⟩ := h hlen
  obtain ⟨hreach, hnodup, -⟩ := hkeys rfl
  exact ⟨s, hrun, hsound.mp rfl, hnodup, hreach, hlength, hreturns⟩

end Eter.Driver

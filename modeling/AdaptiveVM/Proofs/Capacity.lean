import AdaptiveVM.Proofs.Budget

/-!
How many sites the operand byte has room for.

A site takes two words and moves the stream on by one position, which is half a word; so where
sites stand one behind the other, ranges run ahead of the stream. Wherever the cursor is, it has
come there from half of some position by one run of sites, no more than there are positions in
between. A run of 170 sites leaves the cursor 255 words ahead at the most, which an operand can just
tell, and a run of 171 leaves it further ahead than that.
-/

namespace AdaptiveVM

/-- Sites with the opcode own words: it loads a global or an attribute, or calls. -/
def Opcode.ownsWords (op : Opcode) : Bool := op = .loadGlobal || op = .loadAttr || op = .call

lemma Opcode.ownsWords_iff (op : Opcode) :
    op.ownsWords = true ↔ ∃ f, op.family? = some f ∧ f ≠ .binaryAdd := by
  cases op <;> decide

namespace Quickened

variable {code : Array Instr} {p c : Nat} {i : Instr} {f : Family}

/-- Only such a site is given words. -/
lemma ownsWords_of_owning (h : owning (place p c i).1.op = true) : i.op.ownsWords = true := by
  rcases hf : i.op.family? with _ | f
  · rw [place_of_family_none hf] at h
    cases h
  · refine (Opcode.ownsWords_iff i.op).mpr ⟨f, hf, ?_⟩
    rintro rfl
    rw [place_of_entries_zero hf rfl] at h
    cases h

/-- How many sites below a position own words. -/
def ownersBelow (code : Array Instr) (p : Nat) : Nat :=
  (code.toList.take p).countP (·.op.ownsWords)

lemma ownersBelow_succ (h : code[p]? = some i) :
    ownersBelow code (p + 1) = ownersBelow code p + if i.op.ownsWords then 1 else 0 := by
  rw [ownersBelow, take_succ_of_getElem? h, List.countP_append, List.countP_singleton, ownersBelow]

lemma ownersBelow_le (code : Array Instr) (p : Nat) :
    ownersBelow code p ≤ code.countP (·.op.ownsWords) := by
  rw [← Array.countP_toList]
  exact (List.take_sublist p code.toList).countP_le

lemma ownersBelow_eq_zero (h : ∀ k < p, ∀ i, code[k]? = some i → i.op.ownsWords = false) :
    ownersBelow code p = 0 := by
  refine List.countP_eq_zero.mpr fun i hi => ?_
  obtain ⟨k, hk, rfl⟩ := List.mem_take_iff_getElem.mp hi
  rw [h k (by omega) _ (by simp)]
  exact Bool.false_ne_true

/-- **Where the cursor comes from**: one run of sites has moved it on from half of a position. -/
theorem cursorAt_le_run (code : Array Instr) (hp : p ≤ code.size) :
    ∃ start run, cursorAt code p ≤ start / 2 + 2 * run ∧ start + run ≤ p ∧
      run ≤ ownersBelow code p := by
  induction p with
  | zero => exact ⟨0, 0, le_rfl, le_rfl, Nat.zero_le _⟩
  | succ p ih =>
    obtain ⟨start, run, hcursor, hpositions, hrun⟩ := ih (by omega)
    have hi : code[p]? = some code[p] := Array.getElem?_eq_getElem (by omega)
    have hcount := ownersBelow_succ hi
    rw [cursorAt_succ hi]
    rcases hown : owning (place p (cursorAt code p) code[p]).1.op with _ | _
    · rw [place_of_not_owning hown]
      exact ⟨start, run, hcursor, by omega, by omega⟩
    · obtain ⟨hbase, hend⟩ := place_owning hown
      rw [if_pos (ownsWords_of_owning hown)] at hcount
      rw [hend, hbase]
      -- the run goes on, or a new one begins at this site
      by_cases hahead : p / 2 ≤ cursorAt code p
      · exact ⟨start, run + 1, by omega, by omega, by omega⟩
      · exact ⟨p, 1, by omega, by omega, by omega⟩

/-- A site below which there are no more than 170 owners is near its words. -/
lemma cursorAt_near (hp : p ≤ code.size) (hfew : ownersBelow code p ≤ 170) :
    cursorAt code p - p / 2 ≤ 255 := by
  obtain ⟨start, run, hcursor, hpositions, hrun⟩ := cursorAt_le_run code hp
  omega

lemma cursorAt_succ_of_near (hi : code[p]? = some i) (howns : i.op.ownsWords = true)
    (hnear : cursorAt code p - p / 2 ≤ 255) :
    cursorAt code (p + 1) = max (cursorAt code p) (p / 2) + 2 := by
  obtain ⟨f, hf, hne⟩ := (Opcode.ownsWords_iff i.op).mp howns
  have h0 : f.entries ≠ 0 := entries_ne_zero hne
  rw [cursorAt_succ hi, place_of_fits hf h0 (by omega), (entries_eq f).resolve_right h0]

/-- A run of sites that no owner comes before moves the cursor on by two words a site. -/
lemma cursorAt_dense {s : Nat} (hbefore : ownersBelow code s = 0)
    (hdense : ∀ k < 172, ∃ i, code[s + k]? = some i ∧ i.op.ownsWords = true) {k : Nat}
    (hk : k < 171) : cursorAt code (s + k + 1) = s / 2 + 2 * (k + 1) := by
  induction k with
  | zero =>
    obtain ⟨i, hi, howns⟩ := hdense 0 (by omega)
    rw [Nat.add_zero] at hi ⊢
    obtain ⟨start, run, hcursor, hpositions, hrun⟩ :=
      cursorAt_le_run code (lt_size_of_getElem? hi).le
    rw [cursorAt_succ_of_near hi howns (by omega)]
    omega
  | succ k ih =>
    obtain ⟨i, hi, howns⟩ := hdense (k + 1) (by omega)
    rw [← Nat.add_assoc] at hi ⊢
    have hcursor := ih (by omega)
    rw [cursorAt_succ_of_near hi howns (by omega), hcursor]
    omega

/-! ### Sites that stay static -/

lemma state?_eq_unquickened {q : Quickened} :
    q.state? p = some .unquickened ↔
      ∃ op, (q.instrAt p).op = .plain op ∧ op.family?.isSome = true := by
  unfold state?
  rcases (q.instrAt p).op with op | member | member | member | member
  · by_cases hop : op.family?.isSome = true
    · simp [hop]
    · simp [hop]
  all_goals
    simp only [reduceCtorEq, false_and, exists_false, iff_false]
    split <;> simp

lemma mem_sites {q : Quickened} {s : SiteInfo} :
    s ∈ q.sites ↔ s.position < q.instrs.size ∧ (q.instrAt s.position).op = s.op ∧
      q.state? s.position = some s.state := by
  obtain ⟨position, op, state⟩ := s
  simp only [sites, List.mem_filterMap, List.mem_range, Option.map_eq_some_iff, SiteInfo.mk.injEq]
  constructor
  · rintro ⟨_, hlt, _, hstate, rfl, hop, rfl⟩
    exact ⟨hlt, hop, hstate⟩
  · rintro ⟨hlt, hop, hstate⟩
    exact ⟨position, hlt, state, hstate, rfl, hop, rfl⟩

lemma instrAt_of_getElem? {q : Quickened} {x : QuickInstr} (h : q.instrs[p]? = some x) :
    q.instrAt p = x := by
  rw [instrAt, Array.getD_eq_getD_getElem?, h, Option.getD_some]

/-- A site with few owners below it adapts. -/
lemma adaptive_ofCode (hi : code[p]? = some i) (hf : i.op.family? = some f)
    (hfew : code.countP (·.op.ownsWords) ≤ 171) :
    ∃ o, (ofCode code).instrs[p]? = some ⟨.adaptive f, o⟩ := by
  have hlayout := laysOut_ofCode code
  by_cases hadd : f = .binaryAdd
  · subst hadd
    exact ⟨0, (hlayout.counting p i hi (Opcode.eq_of_family hf)).1⟩
  · have howns : i.op.ownsWords = true := (Opcode.ownsWords_iff i.op).mpr ⟨f, hf, hadd⟩
    have hbelow : ownersBelow code p ≤ 170 := by
      have hle := ownersBelow_le code (p + 1)
      rw [ownersBelow_succ hi, if_pos howns] at hle
      omega
    obtain ⟨o, hinstr, -⟩ := hlayout.near p i f hi hf hadd (by
      rw [reservedBelow_ofCode]
      exact cursorAt_near (lt_size_of_getElem? hi).le hbelow)
    exact ⟨o, hinstr⟩

/-- **The operand byte has room for 171 sites.** Let code hold no more than 171 instructions that
own words, wherever they stand. Then every limit with room for the quickened form gives one in which
all sites adapt. One site more may be too much: where 172 of them stand one behind the other and
none stands before, the last of them stays static. -/
theorem offset_capacity (code : Array Instr) :
    ∃ q : Quickened,
      (∀ limit, quicken code limit =
        if q.memorySize ≤ limit then .ok q else .error (.memory q.memorySize limit)) ∧
      (code.countP (·.op.ownsWords) ≤ 171 →
        (∀ (p : Nat) (i : Instr) (f : Family), code[p]? = some i → i.op.family? = some f →
          ∃ o, q.instrs[p]? = some ⟨.adaptive f, o⟩) ∧
        ∀ s ∈ q.sites, s.state ≠ .unquickened) ∧
      ∀ s, (∀ p < s, ∀ i, code[p]? = some i → i.op.ownsWords = false) →
        (∀ k < 172, ∃ i, code[s + k]? = some i ∧ i.op.ownsWords = true) →
          ∃ i, code[s + 171]? = some i ∧ q.instrs[s + 171]? = some (.plain i) ∧
            SiteInfo.mk (s + 171) (.plain i.op) .unquickened ∈ q.sites := by
  have hlayout := laysOut_ofCode code
  refine ⟨ofCode code, quicken_eq code, fun hfew => ?_, fun s hbefore hdense => ?_⟩
  · refine ⟨fun p i f hi hf => adaptive_ofCode hi hf hfew, fun s hs hstate => ?_⟩
    obtain ⟨hlt, -, hsome⟩ := mem_sites.mp hs
    rw [hstate] at hsome
    obtain ⟨op, hop, hfam⟩ := state?_eq_unquickened.mp hsome
    have hsize : s.position < code.size := by simpa using hlt
    have hi : code[s.position]? = some code[s.position] := Array.getElem?_eq_getElem hsize
    -- what is static in the stream was copied, and heads no family
    rcases hf : code[s.position].op.family? with _ | f
    · rw [instrAt_of_getElem? (hlayout.copied _ _ hi hf).1] at hop
      cases hop
      rw [hf] at hfam
      cases hfam
    · obtain ⟨o, hinstr⟩ := adaptive_ofCode hi hf hfew
      rw [instrAt_of_getElem? hinstr] at hop
      cases f <;> cases hop
  · obtain ⟨i, hi, howns⟩ := hdense 171 (by omega)
    obtain ⟨f, hf, hne⟩ := (Opcode.ownsWords_iff i.op).mp howns
    have hcursor := cursorAt_dense (ownersBelow_eq_zero hbefore) hdense (show 170 < 171 by omega)
    have hstatic : (ofCode code).instrs[s + 171]? = some (.plain i) := by
      refine (hlayout.far (s + 171) i f hi hf hne ?_).1
      rw [reservedBelow_ofCode, show s + 171 = s + 170 + 1 by omega, hcursor]
      omega
    have hat := instrAt_of_getElem? hstatic
    refine ⟨i, hi, hstatic, mem_sites.mpr ⟨?_, by rw [hat]; rfl, ?_⟩⟩
    · exact (Array.getElem?_eq_some_iff.mp hstatic).1
    · exact state?_eq_unquickened.mpr ⟨i.op, by rw [hat]; rfl, by rw [hf]; rfl⟩

/-- As many sites as there is room for, with an addition among them, and one site more behind other
instructions. -/
theorem offset_capacity_reached :
    let full := Array.replicate 100 (⟨.loadGlobal, 1⟩ : Instr) ++ #[⟨.binaryAdd, 0⟩] ++
      Array.replicate 71 (⟨.call, 0⟩ : Instr)
    let dense := Array.replicate 5 (⟨.nop, 0⟩ : Instr) ++
      Array.replicate 172 (⟨.loadAttr, 3⟩ : Instr)
    (∃ q, quicken full 10000 = .ok q ∧ ∀ s ∈ q.sites, s.state ≠ .unquickened) ∧
      ∃ q, quicken dense 10000 = .ok q ∧ q.instrs[176]? = some (.plain ⟨.loadAttr, 3⟩) := by
  intro full dense
  have hbefore (p : Nat) (hp : p < 5) (i : Instr) (hi : dense[p]? = some i) :
      i.op.ownsWords = false := by
    rw [Array.getElem?_append_left (by simpa using hp), Array.getElem?_replicate, if_pos hp] at hi
    cases hi
    rfl
  have hsites (k : Nat) (hk : k < 172) : dense[5 + k]? = some ⟨.loadAttr, 3⟩ := by
    rw [Array.getElem?_append_right (by simp), Array.getElem?_replicate, if_pos (by simpa using hk)]
  have hfull : (quicken full 10000).toBool = true := by decide +kernel
  have hdense : (quicken dense 10000).toBool = true := by decide +kernel
  obtain ⟨q, hquicken, hroom, -⟩ := offset_capacity full
  obtain ⟨q', hquicken', -, htight⟩ := offset_capacity dense
  obtain ⟨i, hi, hstatic, -⟩ := htight 5 hbefore fun k hk => ⟨_, hsites k hk, rfl⟩
  obtain rfl := Option.some.inj ((hsites 171 (by omega)).symm.trans hi)
  rw [hquicken] at hfull ⊢
  rw [hquicken'] at hdense ⊢
  refine ⟨⟨q, ?_, (hroom (by decide +kernel)).2⟩, q', ?_, hstatic⟩
  · split at hfull
    · next hle => exact if_pos hle
    · cases hfull
  · split at hdense
    · next hle => exact if_pos hle
    · cases hdense

end Quickened

end AdaptiveVM

import Storefront.Proofs.Asset.Held

/-!
What processing makes of the source of a document is its meaning: the passes take a document to one
without URLs and settings, then to the parts that its conditionals keep, and the values come last.
-/

namespace Storefront.Asset

variable {context : Context} {ε : Type}

/-! ### Outputs that end -/

theorem filename?_cons_of_not_quote {c : Char} (h : isQuote c = false) (s : List Char) :
    filename? (c :: s) = none := by
  rw [filename?]
  split
  · simp [h]
  · rfl

theorem assetUrl?_outputSource_of_no_quotes {x : List Char} (h : ∀ c ∈ x, isQuote c = false)
    (r : List Char) : assetUrl? (outputSource x ++ r) = none := by
  have hname : filename? (Text.dropBlanks (x ++ ' ' :: (outputClose ++ r))) = none := by
    induction x with
    | nil => exact filename?_cons_of_not_quote (by decide) _
    | cons c x ih =>
      obtain ⟨hc, hx⟩ := List.forall_mem_cons.1 h
      cases hblank : Text.isBlank c with
      | true =>
        rw [List.cons_append, Text.dropBlanks, List.dropWhile_cons_of_pos hblank]
        exact ih hx
      | false =>
        rw [List.cons_append, Text.dropBlanks_cons_of_not hblank]
        exact filename?_cons_of_not_quote hc _
  have hsource : outputSource x ++ r = outputOpen ++ ' ' :: (x ++ ' ' :: (outputClose ++ r)) := by
    simp [outputSource]
  rw [hsource, assetUrl?, opened?_blank]
  show Option.bind (filename? (Text.dropBlanks (x ++ ' ' :: (outputClose ++ r)))) _ = none
  rw [hname]
  rfl

/-- No output is left open that opens no quote. -/
theorem outputsEnd_of_no_quotes {ls : List Leaf}
    (h : ∀ expression, .output expression ∈ ls → ∀ c ∈ expression, isQuote c = false) :
    OutputsEnd ls :=
  fun expression _ hsuffix =>
    assetUrl?_outputSource_of_no_quotes (h expression (hsuffix.subset List.mem_cons_self)) _

/-! ### Meaning -/

theorem Leaf.prepared_getD (slot : Nat) (otherwise : Option (List Leaf)) :
    (otherwise.map (Leaf.prepared context slot)).getD [] =
      Leaf.prepared context slot (otherwise.getD []) := by
  cases otherwise <;> rfl

theorem prefix_drop_of_append {α : Type} {as bs cs : List α} {k : Nat}
    (h : as ++ bs <+: cs.drop k) : as <+: cs.drop k ∧ bs <+: cs.drop (k + as.length) := by
  refine ⟨(List.prefix_append as bs).trans h, ?_⟩
  obtain ⟨t, ht⟩ := h
  rw [← List.drop_drop, ← ht, List.append_assoc, List.drop_left]
  exact List.prefix_append bs t

/-- The values of a conditional's branches follow on one another. -/
theorem Leaf.values_conditional (negated : Bool) (condition : List Char) (body : List Leaf)
    (otherwise : Option (List Leaf)) :
    Leaf.values context (Node.conditional negated condition body otherwise).leaves =
      Leaf.values context body ++ Leaf.values context (otherwise.getD []) := by
  have hbetween : Leaf.values context (Leaf.between body otherwise) =
      Leaf.values context body ++ Leaf.values context (otherwise.getD []) := by
    rw [Leaf.between, Leaf.values_append]
    cases otherwise <;> rfl
  rw [Node.leaves, Leaf.values_append, ← hbetween]
  exact List.append_nil _

/-- What a node keeps is released in front of all that comes after the node. -/
theorem Releases.keptAll {values : List (List Char)} {kept : List Leaf} {meaning : List Char}
    (h : Releases values kept meaning) {ns : List Node} {rest : Outcome ε (List Char)}
    (hrest : (fun ls => releaseSettings values (Leaf.texts ls)) <$> Node.keptAll context ns = rest) :
    (do return releaseSettings values (Leaf.texts (kept ++ (← Node.keptAll context ns)))) =
      (do return meaning ++ (← rest)) := by
  have happend (ls : List Leaf) : releaseSettings values (Leaf.texts (kept ++ ls)) =
      meaning ++ releaseSettings values (Leaf.texts ls) := by
    rw [Leaf.texts_append, h]
  rw [← hrest]
  simp only [map_eq_pure_bind, bind_assoc, pure_bind, happend]

/-- Once its values are released, what conditionals keep of a document is what it means. -/
theorem releaseSettings_keptAll {ns : List Node} {values : List (List Char)} {slot : Nat}
    (hns : ∀ n ∈ ns, n.WellFormed) (hurl : PlainUrls context)
    (hvalues : Leaf.values context (ns.flatMap Node.leaves) <+: values.drop slot) :
    (fun ls => releaseSettings values (Leaf.texts ls)) <$>
        Node.keptAll (ε := ε) context (Node.prepareAll context slot ns) =
      Node.meanings context ns := by
  induction ns generalizing slot with
  | nil => rfl
  | cons n ns ih =>
    obtain ⟨hn, hns⟩ := List.forall_mem_cons.1 hns
    rw [List.flatMap_cons, Leaf.values_append] at hvalues
    obtain ⟨hfirst, hrest⟩ := prefix_drop_of_append hvalues
    rw [Leaf.length_values] at hrest
    have ih := ih hns hrest
    rw [Node.prepareAll, Node.keptAll, Node.meanings]
    simp only [map_bind, map_pure]
    cases n with
    | leaf l =>
      have hprepare : Leaf.prepared context slot [l] = [l.prepare context slot] := by
        cases l <;> rfl
      have hmeaning : Leaf.meanings context [l] = l.meaning context := List.append_nil _
      have hl := releases_prepared (List.forall_mem_singleton.2 hn) hurl hfirst
      rw [hprepare, hmeaning] at hl
      exact hl.keptAll ih
    | conditional negated condition body otherwise =>
      obtain ⟨-, hb, ho⟩ := hn
      rw [Leaf.values_conditional] at hfirst
      obtain ⟨hbody, hother⟩ := prefix_drop_of_append hfirst
      rw [Leaf.length_values] at hother
      have ho : ∀ l ∈ otherwise.getD [], l.WellFormed := by
        cases otherwise with
        | none => exact fun l hl => absurd hl List.not_mem_nil
        | some branch => exact ho branch rfl
      have hbody := releases_prepared hb hurl hbody
      have hother := releases_prepared ho hurl hother
      rw [← Leaf.prepared_getD] at hother
      simp only [Node.prepare, Node.kept, Node.meaning]
      -- Both branches are kept as they are, or else the verdict picks one of them.
      split
      · exact (hbody.between hother).keptAll ih
      · rw [bind_assoc, bind_assoc]
        refine bind_congr fun holds => ?_
        simp only [pure_bind]
        split
        · exact hbody.keptAll ih
        · exact hother.keptAll ih

theorem Leaf.WellFormed.sound_resolved {l : Leaf} (h : l.WellFormed) (hurl : PlainUrls context) :
    (l.resolved context).Sound :=
  (h.free_resolved hurl).sound

/-- The parts of a document are sound once URLs are resolved. -/
theorem Node.sound_resolved {ns : List Node} (hns : ∀ n ∈ ns, n.WellFormed)
    (hurl : PlainUrls context) : ∀ l ∈ ns.flatMap Node.leaves, (l.resolved context).Sound := by
  intro l hl
  obtain ⟨n, hn, hl⟩ := List.mem_flatMap.1 hl
  have hforall : n.Forall fun l => (l.resolved context).Sound :=
    (hns n hn).imp fun m hm => hm.sound_resolved hurl
  have hleaves : ∀ l ∈ n.leaves, (l.resolved context).Sound :=
    Node.forall_leaves (fun words hwords => hwords) hforall
  exact hleaves l hl

theorem Node.names_wellFormed {ns : List Node} (hns : ∀ n ∈ ns, n.WellFormed) :
    ∀ name, .url name ∈ ns.flatMap Node.leaves → name ≠ [] ∧ ∀ c ∈ name, isQuote c = false := by
  intro name hname
  obtain ⟨n, hn, hname⟩ := List.mem_flatMap.1 hname
  have hforall : n.Forall fun l => ∀ name, l = .url name →
      name ≠ [] ∧ ∀ c ∈ name, isQuote c = false :=
    (hns n hn).imp fun l hl name heq => by
      subst heq
      exact hl
  exact Node.forall_leaves (fun words _ name heq => by cases heq) hforall _ hname name rfl

theorem settingValues_sources {ls : List Leaf} (h : ∀ l ∈ ls, (l.resolved context).Sound) :
    settingValues context.settings (Leaf.sources (ls.map (Leaf.resolved context))) =
      Leaf.values context ls := by
  rw [settingValues, (directives_settingOutput (List.forall_mem_map.2 h)).1,
    Leaf.settings_map_resolved]
  rfl

theorem holdSettings_sources {ns : List Node}
    (h : ∀ l ∈ ns.flatMap Node.leaves, (l.resolved context).Sound) :
    holdSettings (Leaf.sources ((ns.flatMap Node.leaves).map (Leaf.resolved context))) =
      Node.sources (Node.prepareAll context 0 ns) := by
  rw [holdSettings, (directives_settingOutput (List.forall_mem_map.2 h)).2, Node.sources,
    Node.leaves_prepareAll]
  rfl

/-- Processing the source of a document gives what its parts mean, one after the other, once all
its URLs are resolved. -/
theorem process_sources {ns : List Node} (hns : ∀ n ∈ ns, n.WellFormed)
    (hend : OutputsEnd (ns.flatMap Node.leaves)) (hurl : PlainUrls context) :
    process context (.ofList (Node.sources ns)) = do
      Outcome.ofExcept (resolveAll context (Leaf.urlNames (ns.flatMap Node.leaves)))
      return .ofList (← Node.meanings context ns) := by
  have hsound := Node.sound_resolved hns hurl
  have hfree := Node.free_prepareAll hns hurl 0
  have hvalues : Leaf.values context (ns.flatMap Node.leaves) <+:
      (Leaf.values context (ns.flatMap Node.leaves)).drop 0 := List.prefix_refl _
  have hrest : (do
      let s ← resolveConditionals context (Node.sources (Node.prepareAll context 0 ns))
      return releaseSettings (Leaf.values context (ns.flatMap Node.leaves))
        (removeOutputs (removeTags s))) = Node.meanings (ε := UrlError) context ns := by
    rw [← releaseSettings_keptAll hns hurl hvalues, resolveConditionals_sources hfree,
      map_eq_pure_bind, map_eq_pure_bind, bind_assoc]
    refine Outcome.bind_congr_of_ok fun ls hls => ?_
    have hls := Node.sound_of_keptAll (fun n hn => (hfree n hn).imp fun l hl => hl.sound) hls
    rw [pure_bind, removeOutputs_removeTags_sources hls]
  rw [process, processChars, String.toList_ofList, Node.sources,
    resolveUrls_sources hsound (Node.names_wellFormed hns) hend]
  simp only [bind_assoc, pure_bind, settingValues_sources hsound, holdSettings_sources hsound]
  rw [← hrest]
  simp only [bind_assoc, pure_bind]

/-- A value with braces in it is put out as it is. -/
theorem process_sources_unless :
    process
        { settings := [("shop", .map [("name", .str "A\x7b\x7bB")]), ("open", .bool true)]
          resolveUrl := fun name =>
            if name = "a.css" then .ok "/assets/a.css" else .error .strayBrace
          keepBodies := false }
        (.ofList (Node.sources
          [.leaf (.setting "shop.name".toList), .leaf (.output "page".toList),
            .conditional true "settings.open".toList [.text "x".toList, .url "a.css".toList]
              (some [.text "y".toList, .tag "layout".toList, .setting "shop.name".toList])])) =
      pure (.ofList "A\x7b\x7bByA\x7b\x7bB".toList) := by
  have hpath : IsPath "shop.name".toList := by
    have hsegments : Text.splitOn '.' "shop.name".toList = ["shop".toList, "name".toList] := rfl
    rw [IsPath, hsegments]
    refine List.forall_mem_cons.2 ⟨⟨List.cons_ne_nil _ _, ?_⟩,
      List.forall_mem_singleton.2 ⟨List.cons_ne_nil _ _, ?_⟩⟩
    · exact List.all_eq_true.1 (by decide)
    · exact List.all_eq_true.1 (by decide)
  have houtput : FreeOutput "page".toList := ⟨not_mem_of_all (by decide), by decide, by decide⟩
  have hcondition : IsCondition "settings.open".toList :=
    ⟨List.cons_ne_nil _ _, by decide, not_mem_of_all (by decide)⟩
  have hurl : Leaf.WellFormed (.url "a.css".toList) := by
    refine ⟨List.cons_ne_nil _ _, fun c hc => ?_⟩
    have hall : "a.css".toList.all (!isQuote ·) = true := by decide
    simpa using List.all_eq_true.1 hall c hc
  have htag : FreeTag "layout".toList := ⟨by decide, by decide, not_mem_of_all (by decide)⟩
  have htext {c : Char} (hbrace : c ≠ '\x7b') (hmark : c ≠ '\ue000') : PlainText [c] :=
    PlainText.of_not_mem (by simpa using hbrace.symm) (by simpa using hmark.symm)
  refine (process_sources ?wellFormed ?ends ?plain).trans rfl
  case wellFormed =>
    refine List.forall_mem_cons.2 ⟨hpath, List.forall_mem_cons.2 ⟨houtput, ?_⟩⟩
    refine List.forall_mem_singleton.2 ⟨hcondition, ?_, fun branch hbranch => ?_⟩
    · refine List.forall_mem_cons.2 ⟨htext (by decide) (by decide), ?_⟩
      exact List.forall_mem_singleton.2 hurl
    · cases hbranch
      refine List.forall_mem_cons.2 ⟨htext (by decide) (by decide), ?_⟩
      exact List.forall_mem_cons.2 ⟨htag, List.forall_mem_singleton.2 hpath⟩
  case ends =>
    refine outputsEnd_of_no_quotes fun expression hmem c hc => ?_
    have hexpression : expression = "page".toList := by
      simpa [Node.leaves, Leaf.between] using hmem
    subst hexpression
    have hall : "page".toList.all (!isQuote ·) = true := by decide
    simpa using List.all_eq_true.1 hall c hc
  case plain =>
    intro name url hname
    dsimp only at hname
    split at hname
    · cases hname
      decide
    · cases hname

/-- A quote that an output leaves open can be closed by the text after it, and then both are taken
for the URL of an asset. -/
theorem process_sources_openQuote :
    ¬∀ (context : Context) (ns : List Node), (∀ n ∈ ns, n.WellFormed) → PlainUrls context →
      process context (.ofList (Node.sources ns)) = do
        Outcome.ofExcept (resolveAll context (Leaf.urlNames (ns.flatMap Node.leaves)))
        return .ofList (← Node.meanings context ns) := by
  intro h
  let context : Context := { settings := [], resolveUrl := fun _ => .ok "", keepBodies := false }
  let ns : List Node :=
    [.leaf (.output "'a".toList), .leaf (.text "b' | asset_url \x7d\x7d".toList)]
  have hns : ∀ n ∈ ns, n.WellFormed := by
    refine List.forall_mem_cons.2 ⟨?_, List.forall_mem_singleton.2 ?_⟩
    · exact ⟨not_mem_of_all (by decide), by decide, by decide⟩
    · exact PlainText.of_not_mem (by decide) (by decide)
  have hurl : PlainUrls context := fun name url hurl => by
    cases hurl
    decide
  have hprocess : process context (.ofList (Node.sources ns)) = pure (.ofList []) := by
    rw [process, String.toList_ofList]
    rfl
  have hmeaning := (h context ns hns hurl).symm.trans hprocess
  exact absurd (String.ofList_injective (Outcome.pure_inj.1 hmeaning)) (by decide)

end Storefront.Asset

import AcpltKs.Path.Resolution
import AcpltKs.SimpleServer.Basic

/-! Whether the text of a path that the ticket is asked about names the object that is accessed. -/
namespace AcpltKs
open DelimitedText

namespace KsPath
variable {context p path : KsPath} {id : KsString} {res : KsResultCode}

/-- What comes of a path has been split, unless it is not valid. A result without an error is
absolute. -/
def Sound (p : KsPath) (res : KsResultCode) : Prop :=
  (p.valid = false ∨ ∃ skipped pieces, p.Splits skipped pieces) ∧
    (res = KsResultCode.ok → p.valid = true ∧ p.goUp = 0)

theorem resolveNext_sound
    (hcontext : context.valid = false ∨ ∃ skipped pieces, context.Splits skipped pieces)
    (hnext : context.resolveNext id = some (p, res)) : p.Sound res := by
  obtain ⟨q, hq, hrest⟩ := Option.bind_eq_some_iff.mp hnext
  have herr : (KsResultCode.badPath : KsResultCode) ≠ KsResultCode.ok := by decide
  obtain rfl | ⟨skipped', pieces', hsplits'⟩ := invalid_or_splits hq
  · rw [resolveNext_malformed hq rfl] at hnext
    obtain ⟨rfl, rfl⟩ := Prod.mk.inj (Option.some.inj hnext)
    exact ⟨Or.inl rfl, fun h => absurd h herr⟩
  · by_cases habsolute : q.isAbsolute = true
    · rw [resolveNext_absolute hq hsplits'.valid habsolute] at hnext
      obtain ⟨rfl, rfl⟩ := Prod.mk.inj (Option.some.inj hnext)
      exact ⟨Or.inr ⟨skipped', pieces', hsplits'⟩, fun _ => ⟨hsplits'.valid, by
        simpa [isAbsolute] using habsolute⟩⟩
    · have hrelative : Relative id q := ⟨hq, hsplits'.valid, by simpa using habsolute⟩
      obtain hinvalid | ⟨skipped, pieces, hsplits⟩ := hcontext
      · rw [resolveNext_refused hrelative hinvalid] at hnext
        obtain ⟨rfl, rfl⟩ := Prod.mk.inj (Option.some.inj hnext)
        exact ⟨Or.inr ⟨skipped', pieces', hsplits'⟩, fun h => absurd h herr⟩
      · by_cases hup : q.goUp ≤ context.size
        · have hpos : 1 ≤ q.goUp := Nat.pos_of_ne_zero (by simpa [isAbsolute] using habsolute)
          obtain ⟨path, happend, hpath, hzero, -⟩ :=
            hsplits.append hsplits' hpos (by rwa [hsplits.size] at hup)
          rw [resolveNext_relative hrelative hsplits.valid hup, happend] at hnext
          obtain ⟨rfl, rfl⟩ := Prod.mk.inj (Option.some.inj hnext)
          exact ⟨Or.inr ⟨skipped, _, hpath⟩, fun _ => ⟨hpath.valid, hzero⟩⟩
        · rw [resolveNext_tooHigh hrelative hsplits.valid (Nat.not_le.mp hup)] at hnext
          obtain ⟨rfl, rfl⟩ := Prod.mk.inj (Option.some.inj hnext)
          exact ⟨Or.inl rfl, fun h => absurd h herr⟩

theorem resolveEach_sound {ids : List KsString} {paths : List (KsPath × KsResultCode)}
    (hcontext : context.valid = false ∨ ∃ skipped pieces, context.Splits skipped pieces)
    (hr : resolveEach context ids = some paths) : ∀ r ∈ paths, r.1.Sound r.2 := by
  induction ids generalizing context paths with
  | nil =>
    rw [← Option.some.inj hr]
    exact fun r hmem => absurd hmem List.not_mem_nil
  | cons id ids ih =>
    obtain ⟨⟨path, res⟩, hnext, hr⟩ := Option.bind_eq_some_iff.mp hr
    obtain ⟨rest, hrest, hr⟩ := Option.bind_eq_some_iff.mp hr
    have hsound := resolveNext_sound hcontext hnext
    rw [← Option.some.inj hr]
    intro r hmem
    obtain rfl | hmem := List.mem_cons.mp hmem
    · exact hsound
    · exact ih hsound.1 hrest r hmem

/-- The path an identifier of a request resolves to, before its percent signs are decoded. -/
def resolvedPath (ids : List KsString) (i : ℕ) : Option KsPath := do
  let context ← ofString [slashChar, slashChar]
  let paths ← resolveEach context ids
  let (path, _) ← paths[i]?
  some path

/-- The components of a path as one text. -/
def text (p : KsPath) : KsString := cString (p.slice p.first (p.last + 1) 0)

/-- A path of a request without an error has been resolved and decoded. -/
theorem resolvedPath_of_resolvePaths {ids : List KsString}
    {results : List (KsPath × KsResultCode)} {i : ℕ} (h : resolvePaths ids = some results)
    (hi : results[i]? = some (path, KsResultCode.ok)) :
    ∃ p skipped pieces, resolvedPath ids i = some p ∧ p.Splits skipped pieces ∧ p.goUp = 0 ∧
      p.decodePercents = (KsResultCode.ok, path) := by
  obtain ⟨paths, hpaths, rfl⟩ := resolvePaths_eq_some.mp h
  rw [List.getElem?_map, Option.map_eq_some_iff] at hi
  obtain ⟨⟨p, res⟩, hget, hdecode⟩ := hi
  have hres : res = KsResultCode.ok := by
    by_contra hne
    rw [decodeResolved, if_neg hne] at hdecode
    exact hne (Prod.mk.inj hdecode).2
  rw [decodeResolved, if_pos hres] at hdecode
  obtain ⟨hpath, hcode⟩ := Prod.mk.inj hdecode
  obtain ⟨hsplits, hsound⟩ :=
    resolveEach_sound (Or.inl rfl) hpaths (p, res) (List.mem_of_getElem? hget)
  obtain ⟨hvalid, hzero⟩ := hsound hres
  obtain hinvalid | ⟨skipped, pieces, hsplits⟩ := hsplits
  · exact absurd hvalid (by simp [show p.valid = false from hinvalid])
  · refine ⟨p, skipped, pieces, ?_, hsplits, hzero, Prod.ext hcode hpath⟩
    rw [resolvedPath, ofString_two_slashes]
    simp [show resolveEach (invalid [47, 47]) ids = some paths from hpaths, hget]

end KsPath

theorem fromPercent_append_some {s decoded : KsString} (hs : fromPercent s = some decoded)
    (rest : KsString) : fromPercent (s ++ rest) = (fromPercent rest).map (decoded ++ ·) := by
  fun_induction fromPercent s generalizing decoded with
  | case1 =>
    rw [← Option.some.inj hs]
    simp
  | case2 c₁ c₂ s hne ih =>
    obtain ⟨decoded', hs', rfl⟩ := Option.map_eq_some_iff.mp hs
    rw [List.cons_append, List.cons_append, List.cons_append, fromPercent_escape, if_pos hne,
      ih hs']
    simp [Function.comp_def]
  | case3 => exact absurd hs (by simp)
  | case4 => exact absurd hs (by simp)
  | case5 c s hc ih =>
    obtain ⟨decoded', hs', rfl⟩ := Option.map_eq_some_iff.mp hs
    rw [List.cons_append, fromPercent_cons hc, ih hs']
    simp [Function.comp_def]

theorem fromPercent_join_some {pieces decoded : List KsString} (hne : pieces ≠ [])
    (h : pieces.map fromPercent = decoded.map some) :
    fromPercent (join slashChar pieces) = some (join slashChar decoded) := by
  induction pieces generalizing decoded with
  | nil => exact absurd rfl hne
  | cons piece pieces ih =>
    obtain ⟨first, others, rfl, hfirst, hothers⟩ := List.map_eq_cons_iff.mp h.symm
    by_cases hnil : pieces = []
    · subst hnil
      rw [List.map_nil, List.map_eq_nil_iff] at hothers
      subst hothers
      simpa [join] using hfirst.symm
    · have hnil' : others ≠ [] := by
        rintro rfl
        exact hnil (by simpa using hothers)
      rw [join_cons hnil, join_cons hnil', fromPercent_append_some hfirst.symm,
        fromPercent_cons (by decide), ih hnil hothers.symm]
      rfl

/-- Of the slashes in the decoded text, which ones are escaped. -/
def escapedSlashes : KsString → List Bool
  | [] => []
  | c :: s =>
      if c = percentChar then
        match s with
        | c₁ :: c₂ :: s =>
            if ksFromPercent [c₁, c₂] = slashChar then true :: escapedSlashes s
            else escapedSlashes s
        | _ => []
      else if c = slashChar then false :: escapedSlashes s
      else escapedSlashes s

theorem escapedSlashes_cons {c : UInt8} (hc : c ≠ percentChar) (s : KsString) :
    escapedSlashes (c :: s) =
      if c = slashChar then false :: escapedSlashes s else escapedSlashes s := by
  rw [escapedSlashes.eq_def]
  simp [hc]

theorem escapedSlashes_append {s decoded : KsString} (hs : fromPercent s = some decoded)
    (hslash : slashChar ∉ s) (rest : KsString) :
    escapedSlashes (s ++ rest) =
      List.replicate (decoded.count slashChar) true ++ escapedSlashes rest := by
  fun_induction fromPercent s generalizing decoded with
  | case1 =>
    rw [← Option.some.inj hs]
    rfl
  | case2 c₁ c₂ s hne ih =>
    obtain ⟨decoded', hs', rfl⟩ := Option.map_eq_some_iff.mp hs
    have htail := ih hs' fun hmem => hslash (by simp [hmem])
    simp only [List.cons_append, escapedSlashes, ↓reduceIte, htail]
    split_ifs with hchar
    · rw [hchar, List.count_cons_self, List.replicate_succ, List.cons_append]
    · rw [List.count_cons_of_ne hchar]
  | case3 => exact absurd hs (by simp)
  | case4 => exact absurd hs (by simp)
  | case5 c s hc ih =>
    obtain ⟨decoded', hs', rfl⟩ := Option.map_eq_some_iff.mp hs
    simp only [List.mem_cons, not_or] at hslash
    have hslashChar : c ≠ slashChar := fun h => hslash.1 h.symm
    have htail := ih hs' hslash.2
    rw [List.cons_append, escapedSlashes_cons hc, if_neg hslashChar, htail,
      List.count_cons_of_ne hslashChar]

/-- The slashes that are not escaped are the delimiters. -/
theorem escapedSlashes_join {pieces decoded : List KsString} (hne : pieces ≠ [])
    (hslash : ∀ piece ∈ pieces, slashChar ∉ piece)
    (h : pieces.map fromPercent = decoded.map some) :
    escapedSlashes (join slashChar pieces) = marks slashChar decoded := by
  induction pieces generalizing decoded with
  | nil => exact absurd rfl hne
  | cons piece pieces ih =>
    obtain ⟨first, others, rfl, hfirst, hothers⟩ := List.map_eq_cons_iff.mp h.symm
    have hpiece := hslash piece List.mem_cons_self
    by_cases hnil : pieces = []
    · subst hnil
      rw [List.map_nil, List.map_eq_nil_iff] at hothers
      subst hothers
      have happend := escapedSlashes_append hfirst.symm hpiece []
      rw [List.append_nil, escapedSlashes, List.append_nil] at happend
      rw [marks_singleton, ← happend, join, List.intercalate_singleton]
    · have hnil' : others ≠ [] := by
        rintro rfl
        exact hnil (by simpa using hothers)
      have hrest := ih hnil (fun q hq => hslash q (List.mem_cons_of_mem piece hq)) hothers.symm
      have hcons : escapedSlashes (slashChar :: join slashChar pieces) =
          false :: marks slashChar others := by
        rw [escapedSlashes_cons (by decide), if_pos rfl, hrest]
      rw [join_cons hnil, escapedSlashes_append hfirst.symm hpiece, hcons,
        marks_cons slashChar first hnil']

/-- Resolved paths that decode to the same text have the same slashes of it escaped. -/
def SameDelimiters (p q : KsPath) : Prop :=
  fromPercent p.text = fromPercent q.text → escapedSlashes p.text = escapedSlashes q.text

section Lookup
variable {Obj : Type*} [KssCommObject Obj] {p : KsPath}
open KssCommObject (typeCode getChildById aliasDomain)

/-- The object that is found by these components, one after the other. -/
def lookUp : Obj → List KsString → Option Obj
  | _, [] => none
  | domain, id :: ids => do
      let hc ← getChildById domain id
      if ids = [] then some hc
      else if typeCode hc = KsObjType.domain then lookUp hc ids
      else if typeCode hc = KsObjType.link then lookUp (aliasDomain hc) ids
      else if typeCode hc = KsObjType.history then
        match ids with
        | [id] => getChildById hc id
        | _ => none
      else none

theorem KsPath.components_single (hvalid : p.valid = true) (h : p.first = p.last) :
    p.components = [p.getHead] := by
  simp [components, size, hvalid, h, getHead]

theorem KsPath.components_getTail (hvalid : p.valid = true) (h : p.first < p.last) :
    p.components = p.getHead :: p.getTail.components := by
  have hsize : p.size = p.getTail.size + 1 := by
    simp only [size, getTail, hvalid, if_true]
    omega
  have hcomponent : ∀ i, p.component (i + 1) = p.getTail.component i := by
    intro i
    simp only [component, getTail, slice, slashAt, show p.first + (i + 1) = p.first + 1 + i by omega]
  rw [components, hsize, List.range_succ_eq_map, List.map_cons, List.map_map, components]
  congr 1
  exact List.map_congr_left fun i _ => hcomponent i

theorem KsPath.isSingle_iff (hvalid : p.valid = true) (hle : p.first ≤ p.last) :
    p.isSingle = true ↔ p.first = p.last := by
  simp only [isSingle, size, hvalid, if_true, decide_eq_true_eq]
  omega

theorem historyChildByPath_eq (hvalid : p.valid = true) (hle : p.first ≤ p.last) (history : Obj) :
    KsSimpleServer.historyChildByPath history p =
      match p.components.map cString with
      | [id] => getChildById history id
      | _ => none := by
  obtain hsingle | hmore := hle.eq_or_lt
  · rw [KsPath.components_single hvalid hsingle, KsSimpleServer.historyChildByPath,
      (KsPath.isSingle_iff hvalid hle).mpr hsingle]
    simp
  · have hnot : p.isSingle = false := by
      simpa [hmore.ne] using (KsPath.isSingle_iff hvalid hle).not
    have htail : p.getTail.components ≠ [] := by
      simp [KsPath.components, KsPath.size, KsPath.getTail, hvalid]
    obtain ⟨second, rest, hrest⟩ := List.exists_cons_of_ne_nil htail
    rw [KsPath.components_getTail hvalid hmore, hrest, KsSimpleServer.historyChildByPath, hnot]
    cases getChildById history (cString p.getHead) <;> rfl

theorem domainChildByPath_eq {n : ℕ} (hvalid : p.valid = true) (hle : p.first ≤ p.last)
    (hn : p.last - p.first < n) (domain : Obj) :
    KsSimpleServer.domainChildByPath n domain p = lookUp domain (p.components.map cString) := by
  induction n generalizing domain p with
  | zero => exact absurd hn (Nat.not_lt_zero _)
  | succ n ih =>
    obtain hsingle | hmore := hle.eq_or_lt
    · rw [KsPath.components_single hvalid hsingle, KsSimpleServer.domainChildByPath,
        (KsPath.isSingle_iff hvalid hle).mpr hsingle]
      simp [lookUp]
    · have hnot : p.isSingle = false := by
        simpa [hmore.ne] using (KsPath.isSingle_iff hvalid hle).not
      have htail : p.getTail.components ≠ [] := by
        simp [KsPath.components, KsPath.size, KsPath.getTail, hvalid]
      have hle' : p.getTail.first ≤ p.getTail.last := hmore
      have hn' : p.getTail.last - p.getTail.first < n := by
        simp only [KsPath.getTail]
        omega
      have hrec := fun hc : Obj => ih (p := p.getTail) hvalid hle' hn' hc
      rw [KsPath.components_getTail hvalid hmore, List.map_cons, lookUp,
        KsSimpleServer.domainChildByPath, hnot]
      simp only [Bool.false_eq_true, if_false, List.map_eq_nil_iff, htail, hrec,
        historyChildByPath_eq (p := p.getTail) hvalid hle']

/-- Only the components of a path matter for the object that is found. -/
theorem getChildByPath_eq_lookUp (hvalid : p.valid = true) (hle : p.first ≤ p.last)
    (rootDomain : Obj) :
    KsSimpleServer.getChildByPath rootDomain p = lookUp rootDomain (p.components.map cString) :=
  domainChildByPath_eq hvalid hle (by simp [KsPath.size, hvalid]) rootDomain

end Lookup

/-- What is known of a path once it has been resolved and decoded without an error. -/
theorem KsPath.Splits.named {p path : KsPath} {skipped : KsString} {pieces : List KsString}
    (h : p.Splits skipped pieces) (hzero : p.goUp = 0)
    (hd : p.decodePercents = (KsResultCode.ok, path)) :
    ∃ decoded, decoded ≠ [] ∧ path.components.map cString = decoded ∧
      path.toPltString = slashChar :: join slashChar decoded ∧
      fromPercent p.text = some (join slashChar decoded) ∧
      escapedSlashes p.text = marks slashChar decoded := by
  obtain ⟨decoded, hpieces, hparses, hup⟩ := h.decodePercents hd
  have hne : decoded ≠ [] := by
    rintro rfl
    exact h.ne_nil (by simpa using hpieces)
  have htext : p.text = join slashChar pieces := h.slice_all
  refine ⟨decoded, hne, hparses.components, ?_, ?_, ?_⟩
  · have habsolute : path.isAbsolute = true := by simp [KsPath.isAbsolute, hup, hzero]
    rw [KsPath.toPltString, if_pos habsolute, concat, hparses.slice_all]
    rfl
  · rw [htext, fromPercent_join_some h.ne_nil hpieces]
  · rw [htext, escapedSlashes_join h.ne_nil h.noSlash hpieces]

/-- If the ticket is asked about the same text for both paths, the same components are looked up. -/
def NamesObject (path path' : KsPath) : Prop :=
  path.toPltString = path'.toPltString →
    path.components.map cString = path'.components.map cString

/-- The text names the object exactly if the same slashes of it are delimiters in both requests. -/
theorem namesObject_iff {ids ids' : List KsString} {results results' : List (KsPath × KsResultCode)}
    {i j : ℕ} {path path' : KsPath} (hids : KsPath.resolvePaths ids = some results)
    (hids' : KsPath.resolvePaths ids' = some results')
    (hi : results[i]? = some (path, KsResultCode.ok))
    (hj : results'[j]? = some (path', KsResultCode.ok)) :
    NamesObject path path' ↔ ∀ p q, KsPath.resolvedPath ids i = some p →
      KsPath.resolvedPath ids' j = some q → SameDelimiters p q := by
  obtain ⟨p, skipped, pieces, hp, hsplits, hzero, hd⟩ :=
    KsPath.resolvedPath_of_resolvePaths hids hi
  obtain ⟨q, skipped', pieces', hq, hsplits', hzero', hd'⟩ :=
    KsPath.resolvedPath_of_resolvePaths hids' hj
  obtain ⟨decoded, hne, hcomponents, hstring, htext, hescaped⟩ := hsplits.named hzero hd
  obtain ⟨decoded', hne', hcomponents', hstring', htext', hescaped'⟩ := hsplits'.named hzero' hd'
  rw [NamesObject, hstring, hstring', hcomponents, hcomponents']
  constructor
  · intro hnames p' q' hp' hq' hsame
    obtain rfl := Option.some.inj (hp.symm.trans hp')
    obtain rfl := Option.some.inj (hq.symm.trans hq')
    rw [htext, htext'] at hsame
    rw [hescaped, hescaped', hnames (congrArg _ (Option.some.inj hsame))]
  · intro hdelimiters hsame
    have hjoin : join slashChar decoded = join slashChar decoded' := (List.cons.inj hsame).2
    have hmarks := hdelimiters p q hp hq (by rw [htext, htext', hjoin])
    rw [hescaped, hescaped'] at hmarks
    exact eq_of_join_of_marks hne hne' hjoin hmarks

/-- Two paths that are checked under the same name lead to the same object. -/
theorem NamesObject.getChildByPath_eq {Obj : Type*} [KssCommObject Obj] {path path' : KsPath}
    (h : NamesObject path path') (hname : path.toPltString = path'.toPltString)
    (hvalid : path.valid = true) (hle : path.first ≤ path.last)
    (hvalid' : path'.valid = true) (hle' : path'.first ≤ path'.last) (rootDomain : Obj) :
    KsSimpleServer.getChildByPath rootDomain path =
      KsSimpleServer.getChildByPath rootDomain path' := by
  rw [getChildByPath_eq_lookUp hvalid hle, getChildByPath_eq_lookUp hvalid' hle', h hname]

/-- `/a/b` and `/a%2fb`. -/
theorem not_namesObject_escapedSlash :
    ¬ ∀ (ids ids' : List KsString) (results results' : List (KsPath × KsResultCode)) (i j : ℕ)
      (path path' : KsPath), KsPath.resolvePaths ids = some results →
      KsPath.resolvePaths ids' = some results' → results[i]? = some (path, KsResultCode.ok) →
      results'[j]? = some (path', KsResultCode.ok) → NamesObject path path' := by
  intro h
  have hnames := h [[47, 97, 47, 98]] [[47, 97, 37, 50, 102, 98]] _ _ 0 0 _ _ rfl rfl rfl rfl
  exact absurd (hnames (by decide)) (by decide)

/-- `/a/b`, and `/a/%62` behind `/a%2fb`. -/
theorem namesObject_iff_escapedLetter :
    ∃ (results results' : List (KsPath × KsResultCode)) (path path' : KsPath),
      KsPath.resolvePaths [[47, 97, 47, 98]] = some results ∧
      KsPath.resolvePaths [[47, 97, 37, 50, 102, 98], [47, 97, 47, 37, 54, 50]] = some results' ∧
      (NamesObject path path' ↔ ∀ p q,
        KsPath.resolvedPath [[47, 97, 47, 98]] 0 = some p →
        KsPath.resolvedPath [[47, 97, 37, 50, 102, 98], [47, 97, 47, 37, 54, 50]] 1 = some q →
          SameDelimiters p q) :=
  ⟨_, _, _, _, rfl, rfl, namesObject_iff rfl rfl rfl rfl⟩

end AcpltKs

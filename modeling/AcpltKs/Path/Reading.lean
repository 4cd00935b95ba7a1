import AcpltKs.Path.Reference
import Mathlib.Data.List.Chain

/-! How a relative path that is well formed is read: step by step, to its end. -/
namespace AcpltKs
open LevelMoves PathStep

/-- The loop comes to the end of the path. -/
def ReadToEnd (str : KsString) (room : ℕ → Bool) (readings : List PathReading) : Prop :=
  ∃ cursor, ReadTo str room readings cursor ∧ charAt str cursor.p = 0

/-- The loop comes to a component that is invalid, or for which there is no memory. -/
def GivenUp (str : KsString) (room : ℕ → Bool) : Prop :=
  ∃ readings cursor, ReadTo str room readings cursor ∧ Stops str room readings cursor

section Running
variable {str : KsString} {room : ℕ → Bool} {readings : List PathReading}
  (parser : KscPathParser)

theorem givenUp_or_readToEnd (str : KsString) (room : ℕ → Bool) :
    GivenUp str room ∨ ∃ readings, ReadToEnd str room readings := by
  obtain ⟨outcome, -, hend⟩ := Scanned.outcome (.start : Scanned str room 0 _)
    (show str.length < 0 + (str.length + 1) by omega)
  cases outcome with
  | error s =>
    obtain ⟨-, readings, hread, hstops, -⟩ := hend
    exact Or.inl ⟨readings, s.cursor, hread, hstops⟩
  | ok s =>
    obtain ⟨readings, l, stop, hread, -⟩ := hend.1.follows
    exact Or.inr ⟨readings, s.cursor, hread, hend.2⟩

theorem GivenUp.resolveRelative (h : GivenUp str room) :
    ∃ nodes, parser.resolveRelative room str = some ([], nodes) := by
  obtain ⟨readings, cursor, hread, hstops⟩ := h
  obtain ⟨s, l, stop, hscanned, rfl, hfollows⟩ :=
    hread.scanned parser.fullPath.countComponents
  obtain ⟨hle, n, hn, hruns⟩ := scanned_progress hscanned
  obtain ⟨k, hk⟩ : ∃ k, str.length + 1 = n + (k + 1) := ⟨str.length - n, by omega⟩
  refine ⟨s.nodes, ?_⟩
  rw [KscPathParser.resolveRelative, hk, hruns, scan, if_neg hstops.1,
    hfollows.scanComponent_stops hstops]
  rfl

/-- What is kept of the locator, and the components on the stack, unless one of them leads to one that
has been deleted. -/
theorem ReadToEnd.resolveRelative (h : ReadToEnd str room readings) {keep : ℕ}
    (hkeep : parser.fullPath.countComponents - (PathReading.pathTrace readings).climbed = keep) :
    parser.resolveRelative room str =
      if (PathReading.pathTrace readings).retreated then none
      else (keptPath parser.fullPath keep).map fun kept =>
        (parser.hostserver ++ kept ++
          buildComponents str keep (PathReading.pathTrace readings).items, fun _ => none) := by
  obtain ⟨cursor, hread, hend⟩ := h
  obtain ⟨s, l, stop, hscanned, rfl, hfollows⟩ :=
    hread.scanned parser.fullPath.countComponents
  obtain ⟨hle, n, hn, hruns⟩ := scanned_progress hscanned
  obtain ⟨k, hk⟩ : ∃ k, str.length + 1 = n + (k + 1) := ⟨str.length - n, by omega⟩
  rw [KscPathParser.resolveRelative, hk, hruns, scan, if_pos hend, Option.bind_eq_bind,
    Option.bind_some]
  dsimp only
  rw [hfollows.keep, hkeep]
  cases keptPath parser.fullPath keep with
  | none => simp
  | some kept =>
    rw [Option.bind_eq_bind, Option.bind_some, hfollows.addComponents]
    rfl

end Running

/-- A component on the stack is that of this name. Of the first child in a path there is only the
name. -/
def PathPiece.Shows (str : KsString) (q : PathPiece) (c : PathName) : Prop :=
  (str.drop q.p).take q.len = c.text ∨
    q.joinWithPrevious = false ∧ c.isPart = false ∧ (str.drop q.p).take q.len = c.name

/-- These steps are still to be read. -/
structure PathCursor.At (cursor : PathCursor) (str : KsString) (trailing : Bool)
    (rest : List PathStep) : Prop where
  dotAllowed : cursor.canBeJoined = false → cursor.dotAllowed = true
  text : str.drop cursor.p = (writeBehind trailing cursor.canBeJoined rest).tail
  separator : rest ≠ [] →
    cursor.p = cursor.sz + 1 ∧ str.drop cursor.sz = writeBehind trailing cursor.canBeJoined rest ∨
      cursor.p = cursor.sz ∧ cursor.canBeJoined = false

section Reading
variable {str : KsString} {trailing : Bool} {rest : List PathStep} {cursor : PathCursor}
  {c : PathName} {e : ℕ}

theorem charAt_of_drop {s : KsString} (h : str.drop e = s) : charAt str e = charAt s 0 := by
  rw [charAt_eq_head?, charAt_eq_head?, h, List.drop_zero]

theorem drop_succ_of_drop {a : UInt8} {s : KsString} (h : str.drop e = a :: s) :
    charAt str e = a ∧ str.drop (e + 1) = s :=
  ⟨charAt_of_drop h, by rw [← List.drop_drop, h]; rfl⟩

/-- A delimiter comes first. -/
theorem head_writeBehind (trailing afterName : Bool) (rest : List PathStep) :
    ∀ a ∈ (writeBehind trailing afterName rest).head?, a = slashChar ∨ a = dotChar := by
  cases rest with
  | nil => cases trailing <;> simp [writeBehind]
  | cons step rest =>
    cases step with
    | stay => simp [writeBehind, separator]
    | up => simp [writeBehind, separator]
    | down c =>
      simp only [writeBehind, separator, List.cons_append, List.head?_cons, Option.mem_def,
        Option.some.injEq]
      rintro a rfl
      split
      · exact Or.inr rfl
      · exact Or.inl rfl

/-- Behind a step that is not a name there is a slash, or the end. -/
theorem charAt_writeBehind (trailing : Bool) (rest : List PathStep) :
    charAt (writeBehind trailing false rest) 0 =
      if rest = [] ∧ trailing = false then 0 else slashChar := by
  cases rest with
  | nil => cases trailing <;> rfl
  | cons step rest =>
    cases step with
    | stay => rfl
    | up => rfl
    | down c => simp [writeBehind, separator, charAt]

/-- Where a step ends, the cursor is set behind the next delimiter. -/
theorem at_behind {dotAllowed afterName : Bool}
    (h : str.drop e = writeBehind trailing afterName rest)
    (hdot : afterName = false → dotAllowed = true) :
    (⟨e, if charAt str e ≠ 0 then e + 1 else e, dotAllowed, afterName⟩ : PathCursor).At str trailing
      rest := by
  have hchar := charAt_of_drop h
  have hhead := head_writeBehind trailing afterName rest
  cases hbehind : writeBehind trailing afterName rest with
  | nil =>
    rw [hbehind] at h hchar
    rw [if_neg fun hne => hne hchar]
    refine ⟨hdot, by rw [hbehind]; exact h, fun hne => ?_⟩
    obtain ⟨step, rest, rfl⟩ := List.exists_cons_of_ne_nil hne
    exact absurd hbehind (by simp [writeBehind])
  | cons a tail =>
    rw [hbehind] at h hchar hhead
    have ha : a ≠ 0 := by
      obtain rfl | rfl := hhead a rfl <;> decide
    rw [if_pos (by rw [hchar]; exact ha)]
    refine ⟨hdot, ?_, fun _ => Or.inl ⟨rfl, ?_⟩⟩
    · rw [hbehind, ← List.drop_drop, h]
      rfl
    · rw [hbehind]
      exact h

/-- A point at the end is not read. -/
theorem PathCursor.At.readComponent_stay_nil (h : cursor.At str false [.stay]) :
    readComponent str cursor = none := by
  obtain ⟨hfirst, hrest⟩ := drop_succ_of_drop h.text
  have hsecond : charAt str (cursor.p + 1) = 0 := charAt_of_drop hrest
  rw [readComponent, if_pos hfirst, hsecond, if_neg (by decide), if_neg (by decide), if_pos rfl,
    ite_self]

theorem PathCursor.At.readComponent_stay (h : cursor.At str trailing (.stay :: rest))
    (hrest : ¬ (rest = [] ∧ trailing = false)) :
    ∃ cursor', readComponent str cursor = some (.stay, cursor') ∧ cursor'.canBeJoined = false ∧
      cursor'.At str trailing rest := by
  obtain ⟨hfirst, hbehind⟩ := drop_succ_of_drop h.text
  have hsecond : charAt str (cursor.p + 1) = slashChar :=
    (charAt_of_drop hbehind).trans ((charAt_writeBehind trailing rest).trans (if_neg hrest))
  refine ⟨.behindPoints str (cursor.p + 1), ?_, rfl, at_behind hbehind fun _ => rfl⟩
  rw [readComponent, if_pos hfirst, if_pos hsecond]

theorem PathCursor.At.readComponent_up (h : cursor.At str trailing (.up :: rest)) :
    ∃ cursor', readComponent str cursor = some (.up, cursor') ∧ cursor'.canBeJoined = false ∧
      cursor'.At str trailing rest := by
  obtain ⟨hfirst, hrest⟩ := drop_succ_of_drop h.text
  obtain ⟨hsecond, hbehind⟩ := drop_succ_of_drop hrest
  have hthird : charAt str (cursor.p + 2) = if rest = [] ∧ trailing = false then 0 else slashChar :=
    (charAt_of_drop hbehind).trans (charAt_writeBehind trailing rest)
  refine ⟨.behindPoints str (cursor.p + 2), ?_, rfl, at_behind hbehind fun _ => rfl⟩
  rw [readComponent, if_pos hfirst, if_neg (by rw [hsecond]; decide), if_pos hsecond,
    if_neg (by rw [hthird]; split <;> simp)]

theorem charAt_name (h : str.drop e = c.name ++ writeBehind trailing true rest) :
    isNameChar (charAt str e) = true := by
  obtain ⟨a, name, hname, ha⟩ := c.exists_cons
  rw [hname] at h
  rw [(drop_succ_of_drop h).1]
  exact ha

theorem readName_eq (cursor : PathCursor)
    (h : str.drop cursor.p = c.name ++ writeBehind trailing true rest) :
    ∃ cursor' : PathCursor, readName str cursor =
        (.name cursor.sz (cursor'.sz - cursor.sz) cursor.canBeJoined, cursor') ∧
      cursor'.sz = cursor.p + c.name.length ∧ cursor'.canBeJoined = true ∧
      cursor'.At str trailing rest := by
  have hhead : ∀ b ∈ (writeBehind trailing true rest).head?, isNameChar b = false := by
    intro b hb
    obtain rfl | rfl := head_writeBehind trailing true rest b hb <;> rfl
  have hnameEnd := nameEnd_eq h hhead
  have hbehind : str.drop (nameEnd str cursor.p) = writeBehind trailing true rest := by
    rw [hnameEnd, ← List.drop_drop, h, List.drop_left]
  exact ⟨_, rfl, hnameEnd, rfl, at_behind hbehind fun hnone => absurd hnone (by simp)⟩

theorem separator_down {afterName : Bool} (h : (c.isPart && !afterName) = false) :
    PathStep.separator afterName (.down c) = c.delimiter := by
  rw [PathStep.separator, PathName.delimiter]
  cases hpart : c.isPart with
  | false => rfl
  | true =>
    rw [hpart, Bool.true_and, Bool.not_eq_false'] at h
    rw [h]
    rfl

/-- A name is read from its delimiter on. -/
theorem PathCursor.At.readComponent_name (h : cursor.At str trailing (.down c :: rest)) :
    ∃ (q : PathPiece) (cursor' : PathCursor),
      readComponent str cursor = some (.name q.p q.len q.joinWithPrevious, cursor') ∧
      q.Shows str c ∧ q.joinWithPrevious = cursor.canBeJoined ∧
      (cursor.canBeJoined = true → q.p = cursor.sz) ∧
      q.p + q.len = cursor'.sz ∧ cursor'.canBeJoined = true ∧ cursor'.At str trailing rest := by
  by_cases hpoint : c.isPart = true ∧ cursor.canBeJoined = false
  · -- A part that does not follow a name has a point of its own.
    have htext : str.drop cursor.p = dotChar :: (c.name ++ writeBehind trailing true rest) := by
      have htext := h.text
      simp only [writeBehind, PathStep.text, hpoint, Bool.not_false, Bool.and_true, if_true]
        at htext
      exact htext
    obtain ⟨hfirst, hbehind⟩ := drop_succ_of_drop htext
    obtain ⟨hzero, hslash, hdot⟩ := isNameChar_ne (charAt_name hbehind)
    obtain ⟨cursor', hread, hsz, hjoined, hat⟩ :=
      readName_eq ⟨cursor.p, cursor.p + 1, false, cursor.canBeJoined⟩ hbehind
    have hlength : cursor'.sz - cursor.p = c.text.length := by
      rw [hsz, PathName.text, List.length_cons]
      dsimp only
      omega
    refine ⟨⟨cursor.p, cursor'.sz - cursor.p, cursor.canBeJoined⟩, cursor', ?_, Or.inl ?_, rfl,
      fun hjoined => absurd (hjoined.symm.trans hpoint.2) (by simp), ?_, hjoined, hat⟩
    · rw [readComponent, if_pos hfirst, if_neg hslash, if_neg hdot,
        if_neg (by simp [h.dotAllowed hpoint.2]), if_neg hzero, hread]
    · have hdelimiter : c.delimiter = dotChar := by rw [PathName.delimiter, if_pos hpoint.1]
      dsimp only
      rw [hlength, PathName.text, htext, ← hdelimiter, ← List.cons_append, List.take_left]
    · dsimp only at hsz ⊢
      omega
  · have hname : (c.isPart && !cursor.canBeJoined) = false := by
      simpa using hpoint
    have htext : str.drop cursor.p = c.name ++ writeBehind trailing true rest := by
      have htext := h.text
      simp only [writeBehind, PathStep.text, hname, Bool.false_eq_true, if_false] at htext
      exact htext
    have hdot := (isNameChar_ne (charAt_name htext)).2.2
    obtain ⟨cursor', hread, hsz, hjoined, hat⟩ := readName_eq cursor htext
    have hle : cursor.sz ≤ cursor.p := by
      obtain ⟨hp, -⟩ | ⟨hp, -⟩ := h.separator (by simp) <;> omega
    refine ⟨⟨cursor.sz, cursor'.sz - cursor.sz, cursor.canBeJoined⟩, cursor', ?_, ?_, rfl,
      fun _ => rfl, ?_, hjoined, hat⟩
    · rw [readComponent, if_neg hdot, hread]
    · obtain ⟨hp, hseparator⟩ | ⟨hp, hjoin⟩ := h.separator (by simp)
      · left
        have hlength : cursor'.sz - cursor.sz = c.text.length := by
          rw [hsz, PathName.text, List.length_cons]
          omega
        simp only [writeBehind, PathStep.text, hname, Bool.false_eq_true, if_false,
          separator_down hname] at hseparator
        dsimp only
        rw [hlength, hseparator]
        exact List.take_left ..
      · right
        have hlength : cursor'.sz - cursor.sz = c.name.length := by omega
        refine ⟨hjoin, ?_, ?_⟩
        · simpa [hjoin] using hpoint
        · dsimp only
          rw [hlength, ← hp, htext, List.take_left]
    · dsimp only
      omega

end Reading

/-- The first steps have been read, and the stack holds the components of their names. -/
structure ReadsAlong (str : KsString) (room : ℕ → Bool) (trailing : Bool) (done rest : List PathStep)
    (readings : List PathReading) (cursor : PathCursor) : Prop where
  read : ReadTo str room readings cursor
  place : cursor.At str trailing rest
  moves : List.Forall₂ (Move.Rel (PathPiece.Shows str)) (readings.map PathReading.move) done
  names : PathReading.names readings = done.countP isName
  joined : (PathReading.pathTrace readings).items.IsChain fun q q' =>
    q'.joinWithPrevious = true → q'.p = q.p + q.len
  last : cursor.canBeJoined = true →
    ∃ q, (PathReading.pathTrace readings).items.getLast? = some q ∧ q.p + q.len = cursor.sz

section Walking
variable {str : KsString} {room : ℕ → Bool} {trailing : Bool} {done rest : List PathStep}
  {readings : List PathReading} {cursor : PathCursor} {step : PathStep}

theorem PathCursor.At.ne_end (h : cursor.At str trailing (step :: rest)) :
    charAt str cursor.p ≠ 0 := by
  have hfirst := charAt_of_drop h.text
  rw [hfirst]
  cases step with
  | stay => exact fun hzero => absurd hzero (by decide : dotChar ≠ 0)
  | up => exact fun hzero => absurd hzero (by decide : dotChar ≠ 0)
  | down c =>
    obtain ⟨a, name, hname, ha⟩ := c.exists_cons
    simp only [writeBehind, PathStep.text, hname]
    split
    · exact fun hzero => absurd hzero (by decide : dotChar ≠ 0)
    · exact (isNameChar_ne ha).1

theorem start_along (str : KsString) (room : ℕ → Bool) (h : str = write trailing rest) :
    ReadsAlong str room trailing [] rest [] ⟨0, 0, true, false⟩ :=
  ⟨.start, ⟨fun _ => rfl, h, fun _ => Or.inr ⟨rfl, rfl⟩⟩, .nil, rfl, List.IsChain.nil,
    fun hjoin => absurd hjoin (by simp)⟩

theorem ReadsAlong.up_or_stay {reading : PathReading} {cursor' : PathCursor}
    (h : ReadsAlong str room trailing done (step :: rest) readings cursor)
    (hr : readComponent str cursor = some (reading, cursor'))
    (hmove : reading = .stay ∧ step = .stay ∨ reading = .up ∧ step = .up)
    (hjoin : cursor'.canBeJoined = false) (hplace : cursor'.At str trailing rest) :
    ReadsAlong str room trailing (done ++ [step]) rest (readings ++ [reading]) cursor' := by
  refine ⟨h.read.next h.place.ne_end hr ?_, hplace, ?_, ?_, ?_,
    fun hjoin' => absurd (hjoin.symm.trans hjoin') (by simp)⟩
  · obtain ⟨rfl, -⟩ | ⟨rfl, -⟩ := hmove <;> simp
  · rw [List.map_append]
    refine List.rel_append h.moves (.cons ?_ .nil)
    obtain ⟨rfl, rfl⟩ | ⟨rfl, rfl⟩ := hmove
    · exact .stay
    · exact .up
  · rw [PathReading.names_append, List.countP_append, ← h.names]
    obtain ⟨rfl, rfl⟩ | ⟨rfl, rfl⟩ := hmove <;> rfl
  · rw [PathReading.pathTrace_append]
    obtain ⟨rfl, -⟩ | ⟨rfl, -⟩ := hmove
    · exact h.joined
    · dsimp only [PathReading.move]
      rw [Trace.move]
      split
      · exact h.joined
      · exact h.joined.dropLast

theorem ReadsAlong.next (h : ReadsAlong str room trailing done (step :: rest) readings cursor) :
    (∃ readings' cursor', ReadsAlong str room trailing (done ++ [step]) rest readings' cursor' ∧
        ¬ (step = .stay ∧ rest = [] ∧ trailing = false)) ∨
      Stops str room readings cursor ∧ (step = .stay ∧ rest = [] ∧ trailing = false ∨
        isName step = true ∧ room (done.countP isName) = false) := by
  cases step with
  | stay =>
    by_cases hend : rest = [] ∧ trailing = false
    · obtain ⟨rfl, rfl⟩ := hend
      exact Or.inr ⟨⟨h.place.ne_end, Or.inl h.place.readComponent_stay_nil⟩, Or.inl ⟨rfl, rfl, rfl⟩⟩
    · obtain ⟨cursor', hr, hjoin, hplace⟩ := h.place.readComponent_stay hend
      exact Or.inl ⟨_, cursor', h.up_or_stay hr (Or.inl ⟨rfl, rfl⟩) hjoin hplace,
        fun hbad => hend hbad.2⟩
  | up =>
    obtain ⟨cursor', hr, hjoin, hplace⟩ := h.place.readComponent_up
    exact Or.inl ⟨_, cursor', h.up_or_stay hr (Or.inr ⟨rfl, rfl⟩) hjoin hplace, by simp⟩
  | down c =>
    obtain ⟨q, cursor', hr, hshows, hjoined, hstart, hend, hjoin, hplace⟩ :=
      h.place.readComponent_name
    cases hroom : room (done.countP isName) with
    | false =>
      refine Or.inr ⟨⟨h.place.ne_end, Or.inr ⟨_, _, _, cursor', hr, ?_⟩⟩, Or.inr ⟨rfl, rfl⟩⟩
      rw [h.names, hroom]
    | true =>
      refine Or.inl ⟨_, cursor', ⟨h.read.next h.place.ne_end hr fun _ _ _ _ => h.names ▸ hroom,
        hplace, ?_, ?_, ?_, ?_⟩, by simp⟩
      · rw [List.map_append]
        exact List.rel_append h.moves (.cons (.down hshows) .nil)
      · rw [PathReading.names_append, h.names, List.countP_append]
        rfl
      · rw [PathReading.pathTrace_append]
        refine List.isChain_append.mpr ⟨h.joined, List.isChain_singleton _, ?_⟩
        rintro q₀ hlast q' hq' hq
        obtain rfl := Option.some.inj hq'
        have hcursor := hjoined.symm.trans hq
        obtain ⟨q₁, hlast', hsz⟩ := h.last hcursor
        obtain rfl := Option.some.inj (hlast.symm.trans hlast')
        exact (hstart hcursor).trans hsz.symm
      · intro _
        rw [PathReading.pathTrace_append]
        exact ⟨q, List.getLast?_concat, hend⟩

/-- All steps are read, or the path is given up for one of two reasons. -/
theorem ReadsAlong.all (h : ReadsAlong str room trailing done rest readings cursor) :
    (∃ readings' cursor', ReadsAlong str room trailing (done ++ rest) [] readings' cursor' ∧
        (rest.getLast? = some .stay → trailing = true)) ∨
      GivenUp str room ∧ (rest.getLast? = some .stay ∧ trailing = false ∨
        ∃ n < (done ++ rest).countP isName, room n = false) := by
  induction rest generalizing done readings cursor with
  | nil =>
    rw [List.append_nil]
    exact Or.inl ⟨readings, cursor, h, fun hlast => absurd hlast (by simp)⟩
  | cons step rest ih =>
    obtain ⟨readings', cursor', hnext, hgood⟩ | ⟨hstops, ⟨rfl, rfl, hend⟩ | ⟨hname, hroom⟩⟩ := h.next
    · have hcons : done ++ [step] ++ rest = done ++ step :: rest := by simp
      have hlast : (step :: rest).getLast? = some .stay →
          rest.getLast? = some .stay ∨ trailing = true := by
        intro hlast
        cases rest with
        | nil =>
          obtain rfl : step = .stay := by simpa using hlast
          exact Or.inr (by simpa using hgood)
        | cons step' rest => exact Or.inl hlast
      obtain ⟨readings'', cursor'', hall, hstay⟩ | ⟨hgiven, hwhy⟩ := ih hnext
      · exact Or.inl ⟨readings'', cursor'', hcons ▸ hall, fun h => (hlast h).elim hstay id⟩
      · refine Or.inr ⟨hgiven, ?_⟩
        rw [← hcons]
        refine hwhy.imp_left fun ⟨hstay, htrailing⟩ => ⟨?_, htrailing⟩
        cases rest with
        | nil => exact absurd hstay (by simp)
        | cons step' rest => exact hstay
    · exact Or.inr ⟨⟨_, _, h.read, hstops⟩, Or.inl ⟨rfl, hend⟩⟩
    · refine Or.inr ⟨⟨_, _, h.read, hstops⟩, Or.inr ⟨_, ?_, hroom⟩⟩
      rw [List.countP_append, List.countP_cons_of_pos hname]
      omega

/-- What has been read of all steps. -/
structure ReadsSteps (str : KsString) (room : ℕ → Bool) (steps : List PathStep)
    (readings : List PathReading) : Prop where
  read : ReadToEnd str room readings
  trace : (PathReading.pathTrace readings).Rel (PathPiece.Shows str) (LevelMoves.trace steps)
  joined : (PathReading.pathTrace readings).items.IsChain fun q q' =>
    q'.joinWithPrevious = true → q'.p = q.p + q.len

/-- There was memory for each of the names. -/
theorem ReadTo.hasRoom (h : ReadTo str room readings cursor) :
    ∀ n < PathReading.names readings, room n = true := by
  induction h with
  | start => exact fun n hn => absurd hn (Nat.not_lt_zero n)
  | @next readings cursor cursor' reading _ _ _ hroom ih =>
    rw [PathReading.names_append]
    cases reading with
    | stay => exact ih
    | up => exact ih
    | name p len joinWithPrevious =>
      intro n hn
      obtain hlt | rfl := Nat.lt_succ_iff_lt_or_eq.mp hn
      · exact ih n hlt
      · exact hroom _ _ _ rfl

/-- A well formed path is read to its end, if it does not end with a point and there is memory. -/
theorem readsSteps_or_givenUp (str : KsString) (room : ℕ → Bool) (steps : List PathStep)
    (trailing : Bool) (h : str = write trailing steps) :
    (∃ readings, ReadsSteps str room steps readings ∧
        (steps.getLast? = some .stay → trailing = true) ∧
        ∀ n < steps.countP isName, room n = true) ∨
      GivenUp str room ∧ (steps.getLast? = some .stay ∧ trailing = false ∨
        ∃ n < steps.countP isName, room n = false) := by
  obtain ⟨readings, cursor, hall, hlast⟩ | hgiven := (start_along str room h).all
  · refine Or.inl ⟨readings, ⟨⟨cursor, hall.read, ?_⟩, trace_rel hall.moves, hall.joined⟩, hlast,
      fun n hn => hall.read.hasRoom n (hall.names.symm ▸ hn)⟩
    rw [charAt_of_drop hall.place.text, writeBehind]
    cases trailing <;> rfl
  · exact Or.inr hgiven

end Walking

section Uniqueness
variable {str : KsString} {trailing : Bool} {rest rest' : List PathStep} {cursor : PathCursor}
  {step : PathStep}

theorem PathCursor.At.read (h : cursor.At str true (step :: rest)) :
    ∃ reading cursor', readComponent str cursor = some (reading, cursor') ∧
      Move.Rel (PathPiece.Shows str) reading.move step ∧ cursor'.At str true rest := by
  cases step with
  | stay =>
    obtain ⟨cursor', hr, -, hplace⟩ := h.readComponent_stay (by simp)
    exact ⟨_, cursor', hr, .stay, hplace⟩
  | up =>
    obtain ⟨cursor', hr, -, hplace⟩ := h.readComponent_up
    exact ⟨_, cursor', hr, .up, hplace⟩
  | down c =>
    obtain ⟨q, cursor', hr, hshows, -, -, -, -, hplace⟩ := h.readComponent_name
    exact ⟨_, cursor', hr, .down hshows, hplace⟩

theorem PathPiece.Shows.unique {q : PathPiece} {c c' : PathName} (h : q.Shows str c)
    (h' : q.Shows str c') : c = c' := by
  have hmixed : ∀ {c c' : PathName}, c.text ≠ c'.name := by
    intro c c' heq
    have hdelimiter := c'.isNameChar c.delimiter (heq ▸ List.mem_cons_self)
    exact absurd ((isNameChar_delimiter c).symm.trans hdelimiter) (by simp)
  have hsame : c.isPart = c'.isPart ∧ c.name = c'.name := by
    obtain h | ⟨-, hpart, h⟩ := h <;> obtain h' | ⟨-, hpart', h'⟩ := h'
    · obtain ⟨hdelimiter, hname⟩ := List.cons.inj (h.symm.trans h')
      refine ⟨?_, hname⟩
      rw [PathName.delimiter, PathName.delimiter] at hdelimiter
      cases hpart : c.isPart <;> cases hpart' : c'.isPart <;>
        first | rfl | exact absurd hdelimiter (by rw [hpart, hpart']; decide)
    · exact absurd (h.symm.trans h') hmixed
    · exact absurd (h'.symm.trans h) hmixed
    · exact ⟨hpart.trans hpart'.symm, h.symm.trans h'⟩
  obtain ⟨isPart, name, ne, hchars⟩ := c
  obtain ⟨isPart', name', ne', hchars'⟩ := c'
  obtain ⟨rfl, rfl⟩ := hsame
  rfl

/-- What is read tells the steps. -/
theorem PathCursor.At.unique (h : cursor.At str true rest) (h' : cursor.At str true rest') :
    rest = rest' := by
  have hend : ∀ {cursor : PathCursor}, cursor.At str true [] → charAt str cursor.p = 0 :=
    fun hat => charAt_of_drop hat.text
  induction rest generalizing cursor rest' with
  | nil =>
    cases rest' with
    | nil => rfl
    | cons step rest' => exact absurd (hend h) h'.ne_end
  | cons step rest ih =>
    cases rest' with
    | nil => exact absurd (hend h') h.ne_end
    | cons step' rest' =>
      obtain ⟨reading, cursor₁, hr, hmove, hplace⟩ := h.read
      obtain ⟨reading', cursor₂, hr', hmove', hplace'⟩ := h'.read
      obtain ⟨rfl, rfl⟩ := Prod.mk.inj (Option.some.inj (hr.symm.trans hr'))
      rw [ih hplace hplace']
      congr 1
      generalize reading.move = move at hmove hmove'
      cases hmove with
      | stay => cases hmove'; rfl
      | up => cases hmove'; rfl
      | down hshows =>
        cases hmove' with
        | down hshows' => rw [hshows.unique hshows']

theorem writeBehind_true (afterName : Bool) (steps : List PathStep) :
    writeBehind true afterName steps = writeBehind false afterName steps ++ [slashChar] := by
  induction steps generalizing afterName with
  | nil => rfl
  | cons step steps ih => rw [writeBehind, writeBehind, ih, List.append_assoc]

theorem text_ne_nil (afterName : Bool) (step : PathStep) : PathStep.text afterName step ≠ [] := by
  cases step with
  | stay => simp [PathStep.text]
  | up => simp [PathStep.text]
  | down c =>
    rw [PathStep.text]
    split
    · simp
    · exact c.ne_nil

theorem slashChar_not_mem_text (afterName : Bool) (step : PathStep) :
    slashChar ∉ PathStep.text afterName step := by
  cases step with
  | stay =>
    rw [PathStep.text]
    decide
  | up =>
    rw [PathStep.text]
    decide
  | down c =>
    have hname : slashChar ∉ c.name := fun h => (isNameChar_ne (c.isNameChar _ h)).2.1 rfl
    rw [PathStep.text]
    split
    · exact fun h => hname ((List.mem_cons.mp h).resolve_left (by decide))
    · exact hname

/-- Without a slash at the end, the last character is that of a step. -/
theorem getLast?_writeBehind (afterName : Bool) {steps : List PathStep} (h : steps ≠ []) :
    (writeBehind false afterName steps).getLast? ≠ some slashChar := by
  induction steps generalizing afterName with
  | nil => exact absurd rfl h
  | cons step steps ih =>
    rw [writeBehind, List.cons_append, ← List.singleton_append]
    have htext := text_ne_nil afterName step
    by_cases hnil : steps = []
    · rw [hnil, writeBehind, if_neg (by simp), List.append_nil,
        List.getLast?_append_of_ne_nil _ htext]
      exact fun hlast => slashChar_not_mem_text _ _ (List.mem_of_getLast? hlast)
    · have hne : writeBehind false (isName step) steps ≠ [] := by
        obtain ⟨step', steps, rfl⟩ := List.exists_cons_of_ne_nil hnil
        simp [writeBehind]
      rw [← List.append_assoc, List.getLast?_append_of_ne_nil _ hne]
      exact ih _ hnil

theorem write_eq_nil_iff (trailing : Bool) {steps : List PathStep} :
    write trailing steps = [] ↔ steps = [] := by
  cases steps with
  | nil => cases trailing <;> simp [write, writeBehind]
  | cons step steps => simp [write, writeBehind, text_ne_nil]

theorem write_true {steps : List PathStep} (h : steps ≠ []) :
    write true steps = write false steps ++ [slashChar] := by
  obtain ⟨step, steps, rfl⟩ := List.exists_cons_of_ne_nil h
  rw [write, write, writeBehind_true, writeBehind]
  rfl

theorem getLast?_write {steps : List PathStep} (h : steps ≠ []) :
    (write false steps).getLast? ≠ some slashChar := by
  have hne : write false steps ≠ [] := mt (write_eq_nil_iff false).mp h
  intro hlast
  obtain ⟨step, steps, rfl⟩ := List.exists_cons_of_ne_nil h
  refine getLast?_writeBehind false h ?_
  have hsplit : writeBehind false false (step :: steps) =
      [PathStep.separator false step] ++ write false (step :: steps) := rfl
  rw [hsplit, List.getLast?_append_of_ne_nil _ hne, hlast]

/-- A relative path has only one meaning. -/
theorem write_injective {trailing' : Bool} {steps steps' : List PathStep}
    (h : write trailing steps = write trailing' steps') : steps = steps' := by
  have hslash : ∀ {steps steps'}, steps ≠ [] → write true steps = write true steps' →
      steps = steps' := by
    intro steps steps' _ heq
    have hat := (start_along _ (fun _ => true) (rfl : write true steps = write true steps)).place
    exact hat.unique (start_along _ (fun _ => true) heq).place
  by_cases hnil : steps = []
  · rw [hnil, eq_comm, ← write_eq_nil_iff trailing', ← h, hnil, write_eq_nil_iff trailing]
  by_cases hnil' : steps' = []
  · rw [hnil', ← write_eq_nil_iff trailing, h, hnil', write_eq_nil_iff trailing']
  cases trailing <;> cases trailing'
  · exact hslash hnil (by rw [write_true hnil, write_true hnil', h])
  · rw [write_true hnil'] at h
    exact absurd (by rw [h, List.getLast?_concat]) (getLast?_write hnil)
  · rw [write_true hnil] at h
    exact absurd (by rw [← h, List.getLast?_concat]) (getLast?_write hnil')
  · exact hslash hnil h

/-- A path from the root is written like the relative path from there. -/
theorem writePath_tail (path : List PathName) :
    (writePath path).tail = write false (path.map Move.down) := by
  have hbehind : ∀ path, writeBehind false true (path.map Move.down) = writeNames path := by
    intro path
    induction path with
    | nil => rfl
    | cons c path ih =>
      rw [List.map_cons, writeBehind, writeNames_cons, separator_down (by simp), PathStep.text,
        Bool.not_true, Bool.and_false, isName, ih]
      rfl
  cases path with
  | nil => rfl
  | cons c path =>
    rw [write, List.map_cons, writeBehind, isName, hbehind, writePath, writeNames_cons,
      PathStep.text, PathStep.separator, PathName.delimiter]
    cases c.isPart <;> rfl

theorem writePath_injective {path path' : List PathName} (h : writePath path = writePath path') :
    path = path' := by
  have htail := congrArg List.tail h
  rw [writePath_tail, writePath_tail] at htail
  exact List.map_injective_iff.mpr (fun _ _ => Move.down.inj) (write_injective htail)

theorem KscPathParser.HasPath.unique {parser : KscPathParser} {base base' : List PathName}
    (h : parser.HasPath base) (h' : parser.HasPath base') : base = base' := by
  rw [KscPathParser.HasPath] at h h'
  split_ifs at h h'
  · exact h.trans h'.symm
  · exact writePath_injective (h.symm.trans h')

/-- Every path stands for one locator or for nothing. -/
theorem KscPathParser.WellMade.existsUnique_reference {parser : KscPathParser}
    (h : parser.WellMade) (str : KsString) : ∃! result, parser.Reference str result := by
  by_cases hslash : charAt str 0 = slashChar
  · simp only [KscPathParser.Reference, if_pos hslash]
    exact ⟨_, rfl, fun _ heq => heq⟩
  simp only [KscPathParser.Reference, if_neg hslash]
  by_cases hformed : ∃ steps trailing, str = write trailing steps
  · obtain ⟨steps, trailing, hstr⟩ := hformed
    obtain ⟨base, hbase⟩ := h.exists_hasPath
    refine ⟨parser.locate (follow base steps),
      Or.inl ⟨_, ⟨base, steps, trailing, hbase, hstr, rfl⟩, rfl⟩, ?_⟩
    rintro result (⟨path, ⟨base', steps', trailing', hbase', hstr', rfl⟩, rfl⟩ | ⟨hill, -⟩)
    · rw [hbase'.unique hbase, write_injective (hstr'.symm.trans hstr)]
    · exact absurd hstr (hill steps trailing)
  · have hill : ∀ steps trailing, str ≠ write trailing steps :=
      fun steps trailing hstr => hformed ⟨steps, trailing, hstr⟩
    refine ⟨[], Or.inr ⟨hill, rfl⟩, ?_⟩
    rintro result (⟨path, ⟨base, steps, trailing, -, hstr, -⟩, -⟩ | ⟨-, rfl⟩)
    · exact absurd hstr (hill steps trailing)
    · rfl

end Uniqueness

end AcpltKs

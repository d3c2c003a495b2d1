import RequestEngine.Json.Reader.Text
import RequestEngine.Proofs.Printed

/-! Whole JSON texts. A printed value is the value of its text, and the value of any text is nested
no deeper than texts may be and has its members in order, so it can be printed and parsed again. -/
namespace RequestEngine

theorem Entries.mem_insert {α : Type} {key : String} {value : α} {entries : List (String × α)}
    {e : String × α} (h : e ∈ insert key value entries) : e = (key, value) ∨ e ∈ entries := by
  induction entries with
  | nil => exact .inl (List.mem_singleton.1 h)
  | cons e' rest ih =>
    rw [insert] at h
    split at h
    · exact List.mem_cons.1 h
    split at h
    · exact (List.mem_cons.1 h).imp_right (List.mem_cons_of_mem _)
    · rcases List.mem_cons.1 h with rfl | h
      · exact .inr List.mem_cons_self
      · exact (ih h).imp_right (List.mem_cons_of_mem _)

namespace Json

variable {α β σ : Type} {l : Layout} {v w : Json} {a : α} {depth : Nat}

namespace Reader

theorem takes_readEnd : Takes readEnd [] () [] :=
  (takes_peekToken?_nil blank_nil).bind (takes_pure _ _)

theorem readText_print {r : Reader α} (h : r.Reads v a) (hl : l.Proper) :
    readText r (String.ofList (print l 0 v)) = .ok a := by
  have hvalue : Takes r (print l 0 v) a [] := by
    have hr := h.takes hl 0 stops_nil
    rwa [List.append_nil] at hr
  have hwhole : Takes (do let a ← r; readEnd; return a) (print l 0 v) a [] :=
    hvalue.bind (takes_readEnd.bind (takes_pure a []))
  rw [readText, String.toList_ofList, hwhole]

variable {r : Reader α} {f : α → Reader β} {p q : α → Prop} {p' : β → Prop}

/-- Whatever the reader makes of a text has the property. -/
def Yields (r : Reader α) (p : α → Prop) : Prop := ∀ s a s', Takes r s a s' → p a

theorem yields_pure (h : p a) : Yields (pure a) p := by
  intro s b s' hb
  cases hb
  exact h

theorem Yields.bind (h : Yields r p) (hf : ∀ a, p a → Yields (f a) p') : Yields (r >>= f) p' := by
  intro s b s'' hb
  obtain ⟨a, s', ha, hb⟩ := hb.exists_of_bind
  exact hf a (h s a s' ha) s' b s'' hb

theorem yields_true (r : Reader α) : Yields r fun _ => True := fun _ _ _ _ => trivial

theorem yields_then (hf : ∀ a, Yields (f a) p') : Yields (r >>= f) p' :=
  (yields_true r).bind fun a _ => hf a

theorem yields_failHere (fault : SyntaxFault) (p : α → Prop) : Yields (failHere fault) p := by
  intro s a s' h
  cases h

theorem yields_failNext (fault : SyntaxFault) (p : α → Prop) : Yields (failNext fault) p := by
  intro s a s' h
  cases h

theorem Yields.thenClose (h : Yields r p) (close : Reader Unit) : Yields (thenClose r close) p := by
  intro s a s' ha
  rw [Takes, Json.thenClose] at ha
  split at ha
  · rename_i hr
    split at ha
    · cases ha
      exact h _ _ _ hr
    · cases ha
  · cases ha

theorem yields_readItems {item : Reader α} (h : Yields item p) :
    ∀ room first, Yields (readItems item room first) fun as => ∀ a ∈ as, p a
  | 0, first => yields_failHere _ _
  | room + 1, first => by
    refine yields_then fun another => ?_
    cases another with
    | false => exact yields_pure fun a ha => absurd ha List.not_mem_nil
    | true =>
      refine h.bind fun a ha => (yields_readItems h room false).bind fun as has => ?_
      exact yields_pure (List.forall_mem_cons.2 ⟨ha, has⟩)

theorem yields_readMembers {member : String → σ → Reader σ} {p : σ → Prop}
    (h : ∀ key acc, p acc → Yields (member key acc) p) :
    ∀ room first acc, p acc → Yields (readMembers member room first acc) p
  | 0, first, acc, _ => yields_failHere _ _
  | room + 1, first, acc, hacc => by
    refine yields_then fun another => ?_
    cases another with
    | false => exact yields_pure hacc
    | true =>
      refine yields_then fun _ => yields_then fun key => (h key acc hacc).bind fun acc' hacc' => ?_
      exact yields_readMembers h room false acc' hacc'

theorem yields_readNumber {p : Json → Prop} (hint : ∀ n, p (.int n)) (hdouble : ∀ x, p (.double x))
    (negative : Bool) : Yields (readNumber negative) p := by
  have hinteger : ∀ n, p (integerValue negative n) := by
    intro n
    rw [integerValue]
    split
    · exact hint _
    split
    · exact hdouble _
    · exact hint _
  have htail : ∀ n, Yields (readTail negative n) p := by
    intro n
    refine yields_then fun next => ?_
    split
    · exact yields_then fun x => yields_pure (hdouble x)
    · exact yields_then fun x => yields_pure (hdouble x)
    · exact yields_then fun x => yields_pure (hdouble x)
    · exact yields_pure (hinteger n)
  refine yields_then fun next => ?_
  split
  · exact yields_failHere _ _
  · split
    · refine yields_then fun _ => yields_then fun _ => ?_
      split
      · exact yields_then fun _ => htail 0
      · exact htail 0
    · split
      · refine yields_then fun ds => ?_
        split
        split
        · exact htail _
        · refine yields_then fun _ => ?_
          split
          · exact yields_then fun x => yields_pure (hdouble x)
          · exact yields_then fun x => yields_pure (hdouble x)
      · exact yields_failNext _ _

theorem yields_readByKind {list object : Reader Json} {p : Json → Prop} (hlist : Yields list p)
    (hobject : Yields object p) (hscalar : ∀ v, v.nesting = 0 → p v) :
    Yields (readByKind list object) p := by
  have hnumber := yields_readNumber (fun n => hscalar (.int n) rfl)
    fun x => hscalar (.double x) rfl
  refine yields_then fun next => ?_
  split
  · exact yields_failNext _ _
  · split
    · exact yields_then fun _ => yields_then fun _ => yields_pure (hscalar _ rfl)
    · exact yields_then fun _ => yields_then fun _ => yields_pure (hscalar _ rfl)
    · exact yields_then fun _ => yields_then fun _ => yields_pure (hscalar _ rfl)
    · exact yields_then fun _ => hnumber true
    · exact yields_then fun _ => yields_then fun _ => yields_pure (hscalar _ rfl)
    · exact hlist
    · exact hobject
    · split
      · exact hnumber false
      · exact yields_failNext _ _

theorem ordered_of_nesting (h : v.nesting = 0) : v.Ordered := by
  cases v with
  | array items => exact absurd (Nat.le_of_eq h) not_nesting_array_le
  | object members => exact absurd (Nat.le_of_eq h) not_nesting_object_le
  | _ => exact trivial

/-- The depth bounds the nesting, and members are put in order as they are read. -/
theorem yields_readAny : ∀ depth, Yields (readAny depth) fun v => v.nesting ≤ depth ∧ v.Ordered
  | 0 => yields_readByKind (yields_failNext _ _) (yields_failNext _ _) fun v hv =>
    ⟨Nat.le_of_eq hv, ordered_of_nesting hv⟩
  | depth + 1 => by
    have ih := yields_readAny depth
    refine yields_readByKind ?_ ?_ fun v hv => ⟨hv ▸ Nat.zero_le _, ordered_of_nesting hv⟩
    · refine yields_then fun _ => yields_then fun n => ?_
      refine ((yields_readItems ih n true).thenClose closeList).bind fun items hitems => ?_
      exact yields_pure ⟨nesting_array_le.2 fun v hv => (hitems v hv).1,
        ordered_array.2 fun v hv => (hitems v hv).2⟩
    · refine yields_then fun _ => yields_then fun n => ?_
      have hmember : ∀ key (acc : List (String × Json)),
          (Entries.Sorted acc ∧ ∀ m ∈ acc, m.2.nesting ≤ depth ∧ m.2.Ordered) →
          Yields (do readColon; return Entries.insert key (← readAny depth) acc)
            fun acc => Entries.Sorted acc ∧ ∀ m ∈ acc, m.2.nesting ≤ depth ∧ m.2.Ordered := by
        intro key acc hacc
        refine yields_then fun _ => ih.bind fun v hv => yields_pure ?_
        refine ⟨Entries.sorted_insert hacc.1, fun m hm => ?_⟩
        rcases Entries.mem_insert hm with rfl | hm
        · exact hv
        · exact hacc.2 m hm
      have hmembers := yields_readMembers hmember n true []
        ⟨List.Pairwise.nil, fun m hm => absurd hm List.not_mem_nil⟩
      refine (hmembers.thenClose closeObject).bind fun members h => ?_
      exact yields_pure ⟨nesting_object_le.2 fun m hm => (h.2 m hm).1,
        ordered_object.2 ⟨h.1, fun m hm => (h.2 m hm).2⟩⟩

theorem takes_of_readText {text : String} (h : readText r text = .ok a) :
    ∃ s, Takes r text.toList a s := by
  rw [readText] at h
  split at h
  · rename_i b hb
    cases h
    have hwhole : Takes (do let a ← r; readEnd; return a) text.toList a _ := Prod.ext hb rfl
    obtain ⟨b, s, hvalue, hrest⟩ := hwhole.exists_of_bind
    obtain ⟨_, _, -, hend⟩ := hrest.exists_of_bind
    cases hend
    exact ⟨s, hvalue⟩
  · cases h

end Reader

/-- A value that texts may hold is the value of its print. -/
theorem parse_print (hl : l.Proper) (hint : v.Integral) (hord : v.Ordered)
    (hdepth : v.nesting ≤ maxDepth) : parse (String.ofList (print l 0 v)) = .ok v :=
  Reader.readText_print (Reader.reads_readAny v hint hord maxDepth hdepth) hl

theorem parse_pretty (hint : v.Integral) (hord : v.Ordered) (hdepth : v.nesting ≤ maxDepth) :
    parse v.pretty = .ok v := parse_print Layout.proper_pretty hint hord hdepth

theorem of_parse {text : String} (h : parse text = .ok v) :
    v.nesting ≤ maxDepth ∧ v.Ordered := by
  obtain ⟨s, hv⟩ := Reader.takes_of_readText h
  exact Reader.yields_readAny maxDepth _ v s hv

end Json

end RequestEngine

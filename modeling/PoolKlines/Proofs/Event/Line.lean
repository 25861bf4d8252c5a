import PoolKlines.Event.Log
import PoolKlines.Proofs.Bytes.Base64
import PoolKlines.Proofs.Event.Layout
import PoolKlines.Proofs.Event.Registry
import PoolKlines.Proofs.Sorted

/-!
# Lines that report events

* `PoolEvent.decode?_registry` says what the registry of all events reads;
* `trimTrailing_eq_iff`: which texts become a text when blank characters at their end are removed;
* `EventLine` is the grammar of the lines that report an event;
* `decodeLine_eq_ok_iff`: just these lines are read as the event;
* `event_lines_read_exactly` is the statement about lines and logs.
-/

namespace PoolKlines

/-! ### The registry of all events -/

namespace PoolEvent

/-- The layouts of all events, in the order of their registration. -/
def registrations : List (Registration PoolEvent) :=
  [⟨"SwapEvent", swap <$> SwapEvent.layout⟩,
    ⟨"IncreaseLiquidityEvent", increase <$> LiquidityEvent.layout⟩,
    ⟨"DecreaseLiquidityEvent", decrease <$> LiquidityEvent.layout⟩,
    ⟨"CollectFeeEvent", collect <$> CollectEvent.layout⟩]

/-- The names of all events have different tags. -/
theorem nodup_eventTag : (registrations.map (eventTag space ·.name)).Nodup := by
  decide +kernel

theorem InBody.length_pos {name : String} {body : List UInt8} {e : PoolEvent}
    (h : InBody name body e) : 0 < body.length := by
  rcases h with hlength | hlength | hlength | hlength <;> omega

/-- What the layout of a name reads. -/
theorem exists_layout_iff_inBody {body : List UInt8} {name : String} {e : PoolEvent} :
    (∃ layout, ⟨name, layout⟩ ∈ registrations ∧ layout.run? body = .ok e) ↔
      InBody name body e := by
  simp only [registrations, List.mem_cons, List.not_mem_nil, or_false, Registration.mk.injEq]
  constructor
  · rintro ⟨layout, ⟨rfl, rfl⟩ | ⟨rfl, rfl⟩ | ⟨rfl, rfl⟩ | ⟨rfl, rfl⟩, hread⟩
    · obtain ⟨hlength, rfl⟩ := (Read.run?_map_eq_ok SwapEvent.run?_layout).1 hread
      exact .swap hlength
    · obtain ⟨hlength, rfl⟩ := (Read.run?_map_eq_ok LiquidityEvent.run?_layout).1 hread
      exact .increase hlength
    · obtain ⟨hlength, rfl⟩ := (Read.run?_map_eq_ok LiquidityEvent.run?_layout).1 hread
      exact .decrease hlength
    · obtain ⟨hlength, rfl⟩ := (Read.run?_map_eq_ok CollectEvent.run?_layout).1 hread
      exact .collect hlength
  · rintro (hlength | hlength | hlength | hlength)
    · exact ⟨_, .inl ⟨rfl, rfl⟩, (Read.run?_map_eq_ok SwapEvent.run?_layout).2 ⟨hlength, rfl⟩⟩
    · exact ⟨_, .inr (.inl ⟨rfl, rfl⟩),
        (Read.run?_map_eq_ok LiquidityEvent.run?_layout).2 ⟨hlength, rfl⟩⟩
    · exact ⟨_, .inr (.inr (.inl ⟨rfl, rfl⟩)),
        (Read.run?_map_eq_ok LiquidityEvent.run?_layout).2 ⟨hlength, rfl⟩⟩
    · exact ⟨_, .inr (.inr (.inr ⟨rfl, rfl⟩)),
        (Read.run?_map_eq_ok CollectEvent.run?_layout).2 ⟨hlength, rfl⟩⟩

/-- The registry of all events knows a tag just if it is that of one of their names, and the layout
is that of the name. -/
theorem decode?_registry {tag body : List UInt8} {name : String} {e : PoolEvent} :
    registry.decode? tag body = some (name, .ok e) ↔
      tag = eventTag space name ∧ InBody name body e := by
  rw [show registry = .ofList space registrations from rfl,
    Registry.decode?_ofList_of_nodup nodup_eventTag, exists_layout_iff_inBody, eq_comm]

end PoolEvent

/-! ### Blank characters -/

theorem dropWhile_eq_iff {α : Type} {p : α → Bool} {l m : List α} :
    l.dropWhile p = m ↔ (∃ dropped, (∀ a ∈ dropped, p a) ∧ l = dropped ++ m) ∧
      ∀ a ∈ m.head?, ¬ p a := by
  constructor
  · rintro rfl
    refine ⟨⟨l.takeWhile p, fun a ha => List.mem_takeWhile_imp ha,
      List.takeWhile_append_dropWhile.symm⟩, fun a ha => ?_⟩
    have hhead := List.head?_dropWhile_not p l
    rw [Option.mem_def.1 ha] at hhead
    simpa using hhead
  · rintro ⟨⟨dropped, hdropped, rfl⟩, hhead⟩
    rw [List.dropWhile_append_of_pos hdropped]
    cases m with
    | nil => rfl
    | cons a m => exact List.dropWhile_cons_of_neg (hhead a rfl)

/-- Removing the blank characters at the end leaves a text that does not end in one. -/
theorem trimTrailing_eq_iff {text rest : List Char} :
    trimTrailing rest = text ↔ (∃ blanks, (∀ c ∈ blanks, isBlank c) ∧ rest = text ++ blanks) ∧
      ∀ c ∈ text.getLast?, ¬ isBlank c := by
  rw [trimTrailing, List.reverse_eq_iff, dropWhile_eq_iff, List.head?_reverse]
  refine and_congr_left fun _ => ?_
  constructor
  · rintro ⟨blanks, hblanks, hrest⟩
    refine ⟨blanks.reverse, fun c hc => hblanks c (List.mem_reverse.1 hc), ?_⟩
    rw [← List.reverse_reverse rest, hrest, List.reverse_append, List.reverse_reverse]
  · rintro ⟨blanks, hblanks, rfl⟩
    exact ⟨blanks.reverse, fun c hc => hblanks c (List.mem_reverse.1 hc), List.reverse_append⟩

theorem not_isBlank_of_mem_encodeChars {bytes : List UInt8} {c : Char}
    (h : c ∈ Base64.encodeChars bytes) : ¬ isBlank c := by
  have hsymbol : ∀ v < 64, ¬ isBlank (Base64.symbol v) := by decide
  rw [Base64.encodeChars_eq] at h
  rcases List.mem_append.1 h with h | h
  · obtain ⟨v, hv, rfl⟩ := List.mem_map.1 h
    exact hsymbol v (Base64.sextets_lt bytes v hv)
  · rw [List.eq_of_mem_replicate h]
    decide

/-- The data of a line are the text of some bytes just if nothing but blank characters follow. -/
theorem eventData?_eq_some {line : List Char} {bytes : List UInt8} :
    eventData? line = some (Base64.encodeChars bytes) ↔
      ∃ blanks, (∀ c ∈ blanks, isBlank c) ∧
        line = eventMarker ++ Base64.encodeChars bytes ++ blanks := by
  have hlast : ∀ c ∈ (Base64.encodeChars bytes).getLast?, ¬ isBlank c := fun c hc =>
    not_isBlank_of_mem_encodeChars (List.mem_of_getLast? hc)
  unfold eventData?
  constructor
  · intro h
    split at h
    · rename_i hmarker
      obtain ⟨rest, rfl⟩ := List.isPrefixOf_iff_prefix.1 hmarker
      rw [List.drop_left, Option.some.injEq, trimTrailing_eq_iff] at h
      obtain ⟨⟨blanks, hblanks, rfl⟩, -⟩ := h
      exact ⟨blanks, hblanks, (List.append_assoc ..).symm⟩
    · cases h
  · rintro ⟨blanks, hblanks, rfl⟩
    rw [List.append_assoc, if_pos (List.isPrefixOf_iff_prefix.2 (List.prefix_append ..)),
      List.drop_left, trimTrailing_eq_iff.2 ⟨⟨blanks, hblanks, rfl⟩, hlast⟩]

/-! ### Lines -/

/-- The line reports the event with the name: a marker, the text of the tag of the name and of a
body that holds the event, and then only blank characters. -/
def EventLine (line name : String) (event : PoolEvent) : Prop :=
  ∃ (body : List UInt8) (blanks : List Char), event.InBody name body ∧
    (∀ c ∈ blanks, isBlank c) ∧
    line = String.ofList (eventMarker ++
      Base64.encodeChars (eventTag PoolEvent.space name ++ body) ++ blanks)

/-- A line is read as an event just if it reports the event. -/
theorem decodeLine_eq_ok_iff {line name : String} {event : PoolEvent} :
    decodeLine PoolEvent.registry line = .ok (some (name, event)) ↔ EventLine line name event := by
  constructor
  · intro h
    unfold decodeLine at h
    split at h
    · cases h
    rename_i encoded hdata
    split at h
    · cases h
    rename_i payload hpayload
    obtain rfl : encoded = Base64.encodeChars payload :=
      String.ofList_injective (Base64.decode_eq_ok_iff.1 hpayload)
    obtain ⟨blanks, hblanks, hline⟩ := eventData?_eq_some.1 hdata
    split at h
    · cases h
    split at h
    · cases h
    · cases h
    rename_i name' event' hdecoded
    obtain ⟨rfl, rfl⟩ : name' = name ∧ event' = event := by simpa using h
    obtain ⟨htag, hbody⟩ := PoolEvent.decode?_registry.1 hdecoded
    refine ⟨_, blanks, hbody, hblanks, ?_⟩
    rw [← htag, List.take_append_drop, ← hline, String.ofList_toList]
  · rintro ⟨body, blanks, hbody, hblanks, rfl⟩
    have hknown := PoolEvent.decode?_registry.2 ⟨rfl, hbody⟩
    have htag : (eventTag PoolEvent.space name).length = tagLength := Registry.length_eventTag ..
    generalize eventTag PoolEvent.space name = tag at hknown htag
    have hdata : eventData? (eventMarker ++ Base64.encodeChars (tag ++ body) ++ blanks) =
        some (Base64.encodeChars (tag ++ body)) := eventData?_eq_some.2 ⟨blanks, hblanks, rfl⟩
    have hpayload : Base64.decode (String.ofList (Base64.encodeChars (tag ++ body))) =
        .ok (tag ++ body) := Base64.decode_eq_ok_iff.2 rfl
    have hlength : ¬ (tag ++ body).length ≤ tagLength := by
      have := hbody.length_pos
      rw [List.length_append, htag, tagLength]
      omega
    unfold decodeLine
    rw [String.toList_ofList, hdata]
    simp only [hpayload, if_neg hlength, List.take_left' htag, List.drop_left' htag, hknown]

/-! ### Logs -/

/-- A scan finds the lines that are read as events, each with its own number. -/
theorem mem_scanLog {log : List String} {decoded : DecodedEvent} :
    decoded ∈ (scanLog PoolEvent.registry log).1 ↔
      ∃ line, log[decoded.logIndex]? = some line ∧ EventLine line decoded.name decoded.event := by
  simp only [scanLog, List.mem_filterMap, Prod.exists, List.mem_zipIdx_iff_getElem?,
    ← decodeLine_eq_ok_iff]
  constructor
  · rintro ⟨line, index, hline, hdecoded⟩
    split at hdecoded
    · rename_i name event hread
      obtain rfl := Option.some.inj hdecoded
      exact ⟨line, hline, hread⟩
    · cases hdecoded
  · rintro ⟨line, hline, hread⟩
    exact ⟨line, decoded.logIndex, hline, by rw [hread]⟩

/-- An event that a line reports bears the number of the line. -/
theorem logIndex_eq_of_line {registry : Registry PoolEvent} {line : String} {index : Nat}
    {decoded : DecodedEvent}
    (h : (match decodeLine registry line with
      | .ok (some (name, event)) => some (DecodedEvent.mk name index event)
      | _ => none) = some decoded) : decoded.logIndex = index := by
  split at h
  · obtain rfl := Option.some.inj h
    rfl
  · cases h

/-- A scan finds events in the order of the lines. -/
theorem pairwise_scanLog (log : List String) :
    (scanLog PoolEvent.registry log).1.Pairwise fun d e => d.logIndex < e.logIndex := by
  refine (pairwise_zipIdx log).filterMap _ fun x y hxy d hd e he => ?_
  rw [logIndex_eq_of_line hd, logIndex_eq_of_line he]
  exact hxy

/-- **Event lines are read exactly.** A line is read as an event just if it is the marker, the
base64 text of the tag of a name and of a body that is long enough and holds the event at fixed
offsets, and then blank characters. Hence every event, whatever its fields, is read back from its
line, also with further bytes behind its last field and blank characters at the end. A scan of a log
finds just the lines that report events, in their order and with their own numbers. -/
theorem event_lines_read_exactly :
    (∀ (line name : String) (event : PoolEvent),
      decodeLine PoolEvent.registry line = .ok (some (name, event)) ↔
        EventLine line name event) ∧
    (∀ event : PoolEvent, (∀ key ∈ event.keys, ∃ bytes : List UInt8, bytes.length = 32 ∧
        Base58.encode bytes = key) →
      ∃ body, event.encode? = some body ∧
        ∀ (rest : List UInt8) (blanks : List Char), (∀ c ∈ blanks, isBlank c) →
          decodeLine PoolEvent.registry (String.ofList (eventMarker ++ Base64.encodeChars
            (eventTag PoolEvent.space event.name ++ (body ++ rest)) ++ blanks)) =
              .ok (some (event.name, event))) ∧
    ∀ log : List String,
      (scanLog PoolEvent.registry log).1.Pairwise (fun d e => d.logIndex < e.logIndex) ∧
      ∀ decoded, decoded ∈ (scanLog PoolEvent.registry log).1 ↔
        ∃ line, log[decoded.logIndex]? = some line ∧
          EventLine line decoded.name decoded.event := by
  refine ⟨fun line name event => decodeLine_eq_ok_iff, fun event hkeys => ?_,
    fun log => ⟨pairwise_scanLog log, fun decoded => mem_scanLog⟩⟩
  obtain ⟨body, hbody⟩ := PoolEvent.exists_encode? hkeys
  refine ⟨body, hbody, fun rest blanks hblanks => decodeLine_eq_ok_iff.2 ?_⟩
  exact ⟨body ++ rest, blanks, PoolEvent.inBody_of_encode? hbody rest, hblanks, rfl⟩

/-- A collection of fees, with two bytes behind its last field and blank characters at the end. -/
theorem event_lines_read_exactly_collect :
    let key := Base58.encode (List.replicate 32 7)
    let event := PoolEvent.collect ⟨key, key, key, ⟨10, 20⟩, ⟨300, 400⟩⟩
    ∃ body, event.encode? = some body ∧
      decodeLine PoolEvent.registry (String.ofList (eventMarker ++ Base64.encodeChars
        (eventTag PoolEvent.space "CollectFeeEvent" ++ (body ++ [1, 2])) ++ ['\t', '\n'])) =
          .ok (some ("CollectFeeEvent", event)) := by
  intro key event
  have hkeys : ∀ k ∈ event.keys, k = key := by simp [event, PoolEvent.keys]
  obtain ⟨body, hbody, hread⟩ := event_lines_read_exactly.2.1 event fun k hk =>
    ⟨List.replicate 32 7, rfl, (hkeys k hk).symm⟩
  have hblanks : ∀ c ∈ ['\t', '\n'], isBlank c :=
    List.forall_mem_cons.2 ⟨rfl, List.forall_mem_singleton.2 rfl⟩
  exact ⟨body, hbody, hread [1, 2] ['\t', '\n'] hblanks⟩

end PoolKlines

import JoinPlan.Proofs.Search.Independence

/-!
# Pages

A page is asked for by an offset and a limit, and a search is planned anew for every page.
This file supplies that the pages of a request belong together.

> `search_paged_eq_cut`: the search for a page gives the documents of the search for all
> pages, cut, and is the same in everything else.

The page has no part in planning (`sameReach_withPage`), and skipping and limiting are the
last stages of the pipeline, behind the sorting and all joins (`run_pipeline`). So consecutive
pages of one size are consecutive pieces of one list. They are put together page by page
(`flatMap_cut_pages`), whatever the size, and they are the whole list as soon as they reach
behind its end.
-/

namespace JoinPlan

namespace Page

/-- The page of that number, where pages have one size. -/
def numbered (size number : Nat) : Page := ⟨some (number * size), some size⟩

variable {α : Type}

theorem cut_numbered (size number : Nat) (items : List α) :
    (numbered size number).cut items = (items.drop (number * size)).take size := rfl

/-- The first pages, one behind the other, are the beginning of the list. -/
theorem flatMap_cut_pages (size count : Nat) (items : List α) :
    (List.range count).flatMap (fun number => (numbered size number).cut items) =
      items.take (count * size) := by
  induction count with
  | zero => rw [Nat.zero_mul, List.take_zero, List.range_zero, List.flatMap_nil]
  | succ count ih =>
    rw [List.range_succ, List.flatMap_append, ih, List.flatMap_singleton, cut_numbered,
      Nat.succ_mul, List.take_add]

/-- As many pages as the list has elements are enough for all of it. -/
theorem flatMap_cut_pages_eq_self {size count : Nat} (hsize : 1 ≤ size) {items : List α}
    (hcount : items.length ≤ count) :
    (List.range count).flatMap (fun number => (numbered size number).cut items) = items := by
  rw [flatMap_cut_pages]
  refine List.take_of_length_le ?_
  calc items.length ≤ count := hcount
    _ = count * 1 := (Nat.mul_one count).symm
    _ ≤ count * size := Nat.mul_le_mul_left count hsize

end Page

/-- The answer to a request with a page is the answer to the request without it, cut. -/
theorem Plan.Parts.answer_withPage [PatternLimit] (found : Plan.Parts) (registry : Registry)
    (request : SearchRequest) (page : Page) (store : Store) :
    (found.plan registry { request with page }).answer store =
      { (found.plan registry request.unpaged).answer store with
        documents := page.cut ((found.plan registry request.unpaged).answer store).documents } := by
  have hcut : store.run (found.plan registry { request with page }).collection
      (found.plan registry { request with page }).pipeline =
        page.cut (store.run (found.plan registry request.unpaged).collection
          (found.plan registry request.unpaged).pipeline) := by
    rw [Plan.run_pipeline, Plan.run_pipeline]
    rfl
  unfold Plan.answer
  rw [hcut]
  rfl

/-- The pages of an accepted request tile its result. The search with a page gives what the
search without one gives: of the documents, those that the page keeps, and all the rest
alike. So the pages of one size, one behind the other, are the documents without a page; none
is lost, repeated or moved. -/
theorem search_paged_eq_cut [PatternLimit] (registry : Registry) (options : Options)
    (request : SearchRequest) (plan : Plan) (store : Store) (elapsed : Nat)
    (haccepted : (Plan.ofRequest registry options request).result = .ok plan) :
    ∃ whole, (store.source.search registry options request.unpaged elapsed).result = .ok whole ∧
      (∀ page elapsed',
        (store.source.search registry options { request with page } elapsed').result =
          .ok { whole with documents := page.cut whole.documents }) ∧
      ∀ size, 1 ≤ size → ∃ pages : Nat → SearchResult,
        (∀ number elapsed', (store.source.search registry options
          { request with page := ⟨some (number * size), some size⟩ } elapsed').result =
            .ok (pages number)) ∧
        (∀ count, (List.range count).flatMap (fun number => (pages number).documents) =
          whole.documents.take (count * size)) ∧
        ∀ count, whole.documents.length ≤ count →
          (List.range count).flatMap (fun number => (pages number).documents) =
            whole.documents := by
  obtain ⟨found, hfound, rfl⟩ := Plan.exists_parts_of_accepted haccepted
  have hpaged : ∀ page elapsed',
      (store.source.search registry options { request with page } elapsed').result =
        .ok ((found.plan registry { request with page }).answer store) := by
    intro page elapsed'
    refine Source.result_eq_answer (Plan.result_of_parts ?_) store elapsed'
    rw [Plan.parts_congr (request.sameReach_withPage page), hfound]
  have hcut : ∀ page elapsed',
      (store.source.search registry options { request with page } elapsed').result =
        .ok { (found.plan registry request.unpaged).answer store with
          documents :=
            page.cut ((found.plan registry request.unpaged).answer store).documents } := by
    intro page elapsed'
    rw [hpaged, found.answer_withPage]
  refine ⟨_, hpaged ⟨none, none⟩ elapsed, hcut, ?_⟩
  intro size hsize
  refine ⟨_, fun number elapsed' => hcut (Page.numbered size number) elapsed', ?_, ?_⟩
  · intro count
    exact Page.flatMap_cut_pages size count _
  · intro count hcount
    exact Page.flatMap_cut_pages_eq_self hsize hcount

section

attribute [local instance] PatternLimit.unbounded

/-- Both orders of the store, sorted and page by page. -/
theorem search_paged_orderStore :
    ∃ whole, ∃ pages : Nat → SearchResult,
      (orderStore.source.search orders .standard
        { orderRequest with sort := ["<id"] } 0).result = .ok whole ∧
      (∀ number, (orderStore.source.search orders .standard
        { orderRequest with sort := ["<id"], page := ⟨some (number * 1), some 1⟩ } 0).result =
          .ok (pages number)) ∧
      (List.range whole.documents.length).flatMap (fun number => (pages number).documents) =
        whole.documents := by
  let request : SearchRequest := { orderRequest with sort := ["<id"] }
  obtain ⟨plan, haccepted, -⟩ := Plan.exists_of_check
    (Plan.ofRequest orders .standard request).result (fun _ => true) (by decide +kernel)
  obtain ⟨whole, hwhole, -, htile⟩ :=
    search_paged_eq_cut orders .standard request plan orderStore 0 haccepted
  obtain ⟨pages, hpages, -, hall⟩ := htile 1 (Nat.le_refl 1)
  exact ⟨whole, pages, hwhole, fun number => hpages number 0, hall _ (Nat.le_refl _)⟩

end

end JoinPlan

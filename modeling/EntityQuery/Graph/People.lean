import EntityQuery.Graph.Basic

/-!
# Graph/People — a graph of people

A small graph with every kind of link: people have tags through a bridge, own vehicles, belong to
their bio metrics, and refer to their parents, who are people again.
-/

namespace EntityQuery.Graph.People

/-- A link by a foreign key that refers to `id`. -/
def refersTo (target sourceForeignKey : String) : Field :=
  .link (.outgoing { target, sourceForeignKey, targetRefKey := "id" })

/-- Tags. -/
def tag : Entity :=
  (Entity.ofTable "tags")
    |>.withField "id" (.column "id")
    |>.withField "name" (.column "name")

/-- Bio metrics. -/
def bioMetrics : Entity :=
  (Entity.ofTable "bio_metrics")
    |>.withField "id" (.column "id")
    |>.withField "height" (.column "height")
    |>.withField "hairColor" (.column "hair_color")
    |>.withField "eyeColor" (.column "eye_color")

/-- Vehicles, with their tags and their owners. -/
def vehicle : Entity :=
  (Entity.ofTable "vehicles")
    |>.withField "id" (.column "id")
    |>.withField "type" (.column "type")
    |>.withField "brand" (.column "brand")
    |>.withField "model" (.column "model")
    |>.withField "year" (.column "year")
    |>.withField "tags" (.link (.bridge {
        target := "tag"
        table := "vehicle_tags"
        sourceRefKey := "id"
        targetRefKey := "id"
        sourceForeignKey := "vehicleId"
        targetForeignKey := "tagId" }))
    |>.withField "owner" (refersTo "person" "ownerId")

/-- People, with their tags, bio metrics, vehicles and parents. -/
def person : Entity :=
  (Entity.ofTable "person")
    |>.withField "id" (.column "id")
    |>.withField "name" (.column "name")
    |>.withField "birthDate" (.column "birthDate")
    |>.withField "description" (.column "description")
    |>.withField "age" (.column "age")
    |>.withField "type" (.column "type")
    |>.withField "isActive" (.column "isActive")
    |>.withField "tags" (.link (.bridge {
        target := "tag"
        table := "person_tags"
        sourceRefKey := "id"
        targetRefKey := "id"
        sourceForeignKey := "person_id"
        targetForeignKey := "tag_id" }))
    |>.withField "bioMetrics" (refersTo "bioMetrics" "bioMetricsId")
    |>.withField "vehicles" (.link (.incoming {
        target := "vehicle"
        sourceRefKey := "id"
        targetForeignKey := "ownerId" }))
    |>.withField "father" (refersTo "person" "fatherId")
    |>.withField "mother" (refersTo "person" "motherId")

/-- The whole graph. -/
def graph : Graph :=
  Graph.empty
    |>.withEntity "person" person
    |>.withEntity "tag" tag
    |>.withEntity "bioMetrics" bioMetrics
    |>.withEntity "vehicle" vehicle

end EntityQuery.Graph.People

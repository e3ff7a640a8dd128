import GardenMap.Farm.Coordinate
import GardenMap.Farm.Session
import GardenMap.Proofs.Conversion.Caches
import GardenMap.Proofs.Conversion.WellFormed
import GardenMap.Proofs.Conversion.WireForm
import GardenMap.Proofs.Literal.Lexemes
import GardenMap.Proofs.Literal.Rendering
import GardenMap.Proofs.Query.Compiled
import GardenMap.Proofs.Record.FailedUpdate
import GardenMap.Proofs.Record.Soundness
import GardenMap.Proofs.Record.Wholeness
import GardenMap.Proofs.Query.Narrowing
import GardenMap.Proofs.Schema.Descent
import GardenMap.Proofs.Schema.Membership
import GardenMap.Proofs.Conversion.Dispatch
import GardenMap.Proofs.Record.Blank
import GardenMap.Proofs.Farm.Members
import GardenMap.Proofs.Farm.WeatherRuns
import GardenMap.Proofs.Farm.TestRuns
import GardenMap.Proofs.Query.Instants
import GardenMap.Proofs.Query.ClauseOrder
import GardenMap.Proofs.Query.Complements
import GardenMap.Proofs.Conversion.Transparency
import GardenMap.Proofs.Phrase.Bounds
import GardenMap.Proofs.Phrase.Offsets
import GardenMap.Proofs.Query.Offsets
import GardenMap.Proofs.Record.Sameness
import GardenMap.Proofs.Query.Tagged
import GardenMap.Proofs.Query.Exclusion
import GardenMap.Proofs.Farm.Pruning
import GardenMap.Proofs.Conversion.SpelledPayloads
import GardenMap.Proofs.Conversion.ErrorPaths
import GardenMap.Proofs.Record.LastWriter
import GardenMap.Proofs.Schema.Flattening
import GardenMap.Proofs.Conversion.BuiltOnce
import GardenMap.Proofs.Farm.Measuring
import GardenMap.Proofs.Query.FarDates
import GardenMap.Proofs.Record.Likeness
import GardenMap.Proofs.Query.Quoting

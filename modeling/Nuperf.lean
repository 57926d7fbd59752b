import Nuperf.Library.ByteString
import Nuperf.Library.Numeral
import Nuperf.Library.CStandard
import Nuperf.Library.HostWords
import Nuperf.Library.NamedStore
import Nuperf.Types
import Nuperf.Method
import Nuperf.Stdmeth
import Nuperf.BBHash
import Nuperf.Stddef
import Nuperf.Library.PerfectHash
import Nuperf.Lookup
import Nuperf.Library.TextReader
import Nuperf.EmitDecode
import Nuperf.Library.OrderedMap
import Nuperf.SerdeValue
import Nuperf.SerdeJson
import Nuperf.JsonLayout
import Nuperf.JsonRoundTrip
import Nuperf.SerdeValidator
import Nuperf.OptionModel
import Nuperf.OptionRefinement
import Nuperf.OptionErrors
import Nuperf.OptionRanges
import Nuperf.JsonTotal
import Nuperf.SchemaIO
import Nuperf.CanonicalSchema
import Nuperf.SchemaConformance
import Nuperf.BuildRun
import Nuperf.BuildTrace
import Nuperf.BuildConfiguration
import Nuperf.KeyIngestion
import Nuperf.OptionPrecedence
import Nuperf.Hash
import Nuperf.Library.WordMixing
import Nuperf.HashMixing
import Nuperf.HashPortability
import Nuperf.MinimalPayload
import Nuperf.BuiltHeader
import Nuperf.BuildResources
import Nuperf.LuaSchema
import Nuperf.OptionEncoding
import Nuperf.PluginLoader
import Nuperf.Library.FirstCome
import Nuperf.PluginEntries
import Nuperf.PluginIsolation
import Nuperf.PluginHandles
import Nuperf.PluginOrder
import Nuperf.EmitStructure
import Nuperf.BytewiseHashes
import Nuperf.Library.RunningBest
import Nuperf.CommandLine
import Nuperf.EmitPayload
import Nuperf.SerdeXml
import Nuperf.XmlTotal
import Nuperf.XmlLayout
import Nuperf.XmlImport
import Nuperf.Library.NestedList
import Nuperf.SerdeSexpr
import Nuperf.SexprLayout
import Nuperf.ScalarToken
import Nuperf.SexprRoundTrip
import Nuperf.SerdeYaml
import Nuperf.YamlLayout
import Nuperf.YamlRoundTrip
import Nuperf.XmlRoundTrip
import Nuperf.FormatAgreement
import Nuperf.SexprImport
import Nuperf.Klyspec
import Nuperf.KlyspecRegistry
import Nuperf.KlyspecParse
import Nuperf.KlyspecCheck
import Nuperf.KlyspecOptions
import Nuperf.BuildCommand
import Nuperf.BuildReports
import Nuperf.MainRun
import Nuperf.MainCommands
import Nuperf.MainProtocol
import Nuperf.Library.Ownership
import Nuperf.LuaObjects
import Nuperf.ValidatorConformance
import Nuperf.BuiltHeader

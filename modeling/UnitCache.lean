import UnitCache.Main
import UnitCache.Proofs.Effects
import UnitCache.Proofs.CacheFreshness
import UnitCache.Proofs.LuaClosure
import UnitCache.Proofs.LuaRequirements
import UnitCache.Proofs.ClasspathGrowth
import UnitCache.Proofs.StoreHistory
import UnitCache.Proofs.OutputPlaces
import UnitCache.Proofs.LuaArtifacts
import UnitCache.Proofs.CachePersistence
import UnitCache.Proofs.CacheTraces
import UnitCache.Proofs.LuaContexts
import UnitCache.Proofs.CacheLinks
import UnitCache.Proofs.CacheRepeats
import UnitCache.Proofs.LuaRefusals
import UnitCache.Proofs.CapturedNames
import UnitCache.Proofs.CacheStaging
import UnitCache.Proofs.CacheOrder
import UnitCache.Proofs.StoreReads
import UnitCache.Proofs.ClasspathSearch
import UnitCache.Proofs.StoreFailures
import UnitCache.Proofs.LuaPositions
import UnitCache.Proofs.CacheDefinitions
import UnitCache.Proofs.CompileVerdict
import UnitCache.Proofs.RootedLookups
import UnitCache.Proofs.UnitPaths
import UnitCache.Proofs.LuaLocations
import UnitCache.Proofs.ConfigLayers
import UnitCache.Proofs.OpenArchives
